import Mathlib.Logic.Basic
/-!
# Runs of a step function

A system is a step function on states, fed a list of inputs. `Always`
says that a property holds before the first step and after every one;
`EachStep` says that every step of the run meets a condition, read off the
state it is taken in. `always_iff_eachStep` is the rule for a condition
that is exact: when a good state stays good over a step exactly if the
step meets the condition, a run stays good throughout exactly if all its
steps meet it.
-/

namespace SymphonyBoard

section Runs

variable {σ α : Type*} (step : σ → α → σ)

/-- `p` holds of the start and after each step. -/
def Always (p : σ → Prop) : σ → List α → Prop
  | s, [] => p s
  | s, a :: l => p s ∧ Always p (step s a) l

/-- Every step of the run meets `ok` in the state it is taken in. -/
def EachStep (ok : σ → α → Prop) : σ → List α → Prop
  | _, [] => True
  | s, a :: l => ok s a ∧ EachStep ok (step s a) l

variable {step} {p inv : σ → Prop} {ok : σ → α → Prop}

/-- What the steps meet, they meet of a weaker condition. -/
theorem EachStep.imp {ok' : σ → α → Prop} (h : ∀ s a, ok s a → ok' s a) {s : σ} {l : List α}
    (hl : EachStep step ok s l) : EachStep step ok' s l := by
  induction l generalizing s with
  | nil => trivial
  | cons a l ih => exact ⟨h s a hl.1, ih hl.2⟩

/-- A condition on the inputs alone is met when every input meets it. -/
theorem eachStep_of_forall {ok : α → Prop} {s : σ} {l : List α} (h : ∀ a ∈ l, ok a) :
    EachStep step (fun _ a => ok a) s l := by
  induction l generalizing s with
  | nil => trivial
  | cons a l ih =>
    exact ⟨h a List.mem_cons_self, ih fun b hb => h b (List.mem_cons_of_mem a hb)⟩

/-- `Always` is about every prefix of the run. -/
theorem always_iff_initial {s : σ} {l : List α} :
    Always step p s l ↔ ∀ l₁ l₂, l = l₁ ++ l₂ → p (l₁.foldl step s) := by
  induction l generalizing s with
  | nil =>
    constructor
    · intro h l₁ l₂ heq
      obtain ⟨rfl, -⟩ := List.append_eq_nil_iff.mp heq.symm
      exact h
    · intro h
      exact h [] [] rfl
  | cons a l ih =>
    rw [Always, ih]
    constructor
    · rintro ⟨hs, hl⟩ l₁ l₂ heq
      cases l₁ with
      | nil => exact hs
      | cons b l₁ =>
        obtain ⟨rfl, hrest⟩ := List.cons.inj heq
        exact hl l₁ l₂ hrest
    · intro h
      refine ⟨h [] (a :: l) rfl, fun l₁ l₂ heq => ?_⟩
      exact h (a :: l₁) l₂ (by rw [heq, List.cons_append])

/-- A property that holds throughout holds at the end. -/
theorem Always.last {s : σ} {l : List α} (h : Always step p s l) : p (l.foldl step s) :=
  always_iff_initial.mp h l [] (List.append_nil l).symm

/-- A step lemma gives a run lemma. -/
theorem always_of_eachStep (hstep : ∀ s a, p s → ok s a → p (step s a)) {s : σ} {l : List α}
    (hs : p s) (hl : EachStep step ok s l) : Always step p s l := by
  induction l generalizing s with
  | nil => exact hs
  | cons a l ih => exact ⟨hs, ih (hstep s a hs hl.1) hl.2⟩

/-- What every step keeps, every run keeps. -/
theorem always_of_step (hstep : ∀ s a, p s → p (step s a)) {s : σ} (l : List α) (hs : p s) :
    Always step p s l := by
  induction l generalizing s with
  | nil => exact hs
  | cons a l ih => exact ⟨hs, ih (hstep s a hs)⟩

/-- **An exact step condition is an exact run condition**, under an
invariant that every step keeps. -/
theorem always_iff_eachStep (hinv : ∀ s a, inv s → inv (step s a))
    (hstep : ∀ s a, inv s → p s → (p (step s a) ↔ ok s a)) {s : σ} {l : List α}
    (hi : inv s) (hs : p s) : Always step p s l ↔ EachStep step ok s l := by
  induction l generalizing s with
  | nil => exact ⟨fun _ => trivial, fun _ => hs⟩
  | cons a l ih =>
    rw [Always, EachStep]
    constructor
    · rintro ⟨-, hl⟩
      have hp : p (step s a) := by
        cases l with
        | nil => exact hl
        | cons b l => exact hl.1
      exact ⟨(hstep s a hi hs).mp hp, (ih (hinv s a hi) hp).mp hl⟩
    · rintro ⟨hok, hl⟩
      have hp : p (step s a) := (hstep s a hi hs).mpr hok
      exact ⟨hs, (ih (hinv s a hi) hp).mpr hl⟩

end Runs

end SymphonyBoard
