import SymphonyBoard.Common.Run
/-!
# Coalesced projections

`coalesceGraphNeighborhoodProjection` of `src/server/graph-neighborhood.ts`
for one key: callers that ask while a loader runs share it. A step is one
turn of the event loop that touches an entry: a caller joins, a caller's
signal aborts, the loader settles, the entry leaves the map and its promise
settles (`published`), a caller's promise reacts to it (`deliver`), and the
caller is released for good (`finish`). They come in any order they are
possible in; one that is not possible does nothing.
-/

namespace SymphonyBoard

namespace Coalesce

variable {V E : Type}

/-! ## The entries -/

/-- What a loader's promise settles with. -/
inductive Outcome (V E : Type)
  | resolved (value : V)
  | rejected (error : E)
  | abortError
deriving DecidableEq

/-- What a caller's promise settles with: an abort of its own, or the
loader's outcome. -/
inductive Settlement (V E : Type)
  | abort
  | outcome (o : Outcome V E)
deriving DecidableEq

/-- How a loader ended, and whether it had been aborted by then. -/
structure Ending (V E : Type) where
  outcome : Outcome V E
  aborted : Bool
deriving DecidableEq

/-- A caller of an entry. `aborted` is its own signal, which a caller
without one never raises; `finished` says its listener is gone. -/
structure Caller (V E : Type) where
  aborted : Bool
  released : Bool
  settled : Option (Settlement V E)
  finished : Bool
deriving DecidableEq

/-- An entry: one run of the loader with everyone who joined it. -/
structure LoaderRun (V E : Type) where
  signalled : Bool
  consumers : Nat
  ended : Option (Ending V E)
  published : Bool
  callers : List (Caller V E)
deriving DecidableEq

namespace LoaderRun

/-- A run nobody has joined. -/
def start : LoaderRun V E :=
  { signalled := false, consumers := 0, ended := none, published := false, callers := [] }

/-- The loader was aborted while it ran. -/
def cut (run : LoaderRun V E) : Bool :=
  match run.ended with
  | none => run.signalled
  | some e => e.aborted

/-- One caller of the run changes. -/
def setCaller (run : LoaderRun V E) (c : Nat) (f : Caller V E → Caller V E) : LoaderRun V E :=
  { run with callers := run.callers.modify c f }

/-- `release`: once a caller, and the last one out aborts the loader if its
own signal is raised. -/
def release (run : LoaderRun V E) (c : Nat) : LoaderRun V E :=
  match run.callers[c]? with
  | none => run
  | some caller =>
    if caller.released then run
    else
      let consumers := run.consumers - 1
      { run.setCaller c fun caller => { caller with released := true } with
        consumers
        signalled := run.signalled || (decide (consumers = 0) && caller.aborted) }

/-- A caller whose signal is already raised is released and refused at
once. -/
def join (run : LoaderRun V E) (aborted : Bool) : LoaderRun V E :=
  let caller : Caller V E :=
    { aborted, released := false, settled := if aborted then some .abort else none,
      finished := aborted }
  let joined :=
    { run with consumers := run.consumers + 1, callers := run.callers ++ [caller] }
  if aborted then joined.release run.callers.length else joined

/-- `onAbort`, while the listener is there. -/
def abort (run : LoaderRun V E) (c : Nat) : LoaderRun V E :=
  match run.callers[c]? with
  | none => run
  | some caller =>
    if caller.aborted then run
    else
      let raised := run.setCaller c fun caller => { caller with aborted := true }
      if caller.finished then raised
      else (raised.release c).setCaller c fun caller =>
        { caller with settled := caller.settled.or (some .abort) }

/-- The loader settles; it gives up with an `AbortError` only when it was
told to. -/
def ends (run : LoaderRun V E) (outcome : Outcome V E) : LoaderRun V E :=
  match run.ended, outcome with
  | some _, _ => run
  | none, .abortError =>
    if run.signalled then { run with ended := some ⟨.abortError, true⟩ } else run
  | none, outcome => { run with ended := some ⟨outcome, run.signalled⟩ }

/-- The entry's promise settles. -/
def publish (run : LoaderRun V E) : LoaderRun V E :=
  { run with published := run.ended.isSome }

/-- `entry.promise.then(resolve, reject)`; a settled promise stays as it
is. -/
def deliver (run : LoaderRun V E) (c : Nat) : LoaderRun V E :=
  match run.ended with
  | none => run
  | some e =>
    if run.published then
      run.setCaller c fun caller =>
        { caller with settled := caller.settled.or (some (.outcome e.outcome)) }
    else run

/-- The `finally` after it. -/
def finish (run : LoaderRun V E) (c : Nat) : LoaderRun V E :=
  match run.callers[c]? with
  | none => run
  | some caller =>
    if run.published ∧ caller.settled.isSome then
      (run.setCaller c fun caller => { caller with finished := true }).release c
    else run

end LoaderRun

/-- What happens to one entry after callers joined it. -/
inductive EntryEvent (V E : Type)
  | abort (c : Nat)
  | ends (outcome : Outcome V E)
  | publish
  | deliver (c : Nat)
  | finish (c : Nat)

/-- What an event of a run does to it. -/
def EntryEvent.apply (run : LoaderRun V E) : EntryEvent V E → LoaderRun V E
  | abort c => run.abort c
  | ends outcome => run.ends outcome
  | publish => run.publish
  | deliver c => run.deliver c
  | finish c => run.finish c

/-! ## The map -/

/-- Every loader run of the key, oldest first, and the one in the map. -/
structure State (V E : Type) where
  runs : List (LoaderRun V E)
  inFlight : Option Nat
deriving DecidableEq

/-- Nothing has been asked. -/
def State.empty : State V E := { runs := [], inFlight := none }

/-- What happens next: a consumer joins, or something happens to a run. -/
inductive Event (V E : Type)
  | join (aborted : Bool)
  | entry (i : Nat) (event : EntryEvent V E)

/-- A caller joins the entry in the map, or starts the loader. -/
def State.join (s : State V E) (aborted : Bool) : State V E :=
  match s.inFlight with
  | some i => { s with runs := s.runs.modify i fun run => run.join aborted }
  | none =>
    { runs := s.runs ++ [LoaderRun.start.join aborted], inFlight := some s.runs.length }

/-- The map forgets an entry when its promise settles. -/
def State.forget (s : State V E) (i : Nat) : State V E :=
  if s.inFlight = some i ∧ s.runs[i]?.any (·.ended.isSome) then { s with inFlight := none } else s

/-- One event. -/
def step (s : State V E) : Event V E → State V E
  | .join aborted => s.join aborted
  | .entry i .publish =>
    { s.forget i with runs := s.runs.modify i LoaderRun.publish }
  | .entry i event => { s with runs := s.runs.modify i event.apply }

/-! ## Lists with one element changed -/

section Modify

variable {α : Type} {l : List α} {i : Nat} {f : α → α}

theorem forall_mem_modify {p : α → Prop} (h : ∀ x ∈ l, p x)
    (hf : ∀ a, l[i]? = some a → p (f a)) : ∀ x ∈ l.modify i f, p x := by
  intro x hx
  obtain ⟨j, hj⟩ := List.mem_iff_getElem?.mp hx
  rw [List.getElem?_modify] at hj
  cases hlj : l[j]? with
  | none =>
    rw [hlj] at hj
    cases hj
  | some a =>
    rw [hlj] at hj
    have hx' : (if i = j then f a else a) = x := Option.some.inj hj
    by_cases hij : i = j
    · subst hij
      rw [if_pos rfl] at hx'
      rw [← hx']
      exact hf a hlj
    · rw [if_neg hij] at hx'
      rw [← hx']
      exact h a (List.mem_of_getElem? hlj)

theorem modify_append_singleton (l : List α) (a : α) (f : α → α) :
    (l ++ [a]).modify l.length f = l ++ [f a] := by
  induction l with
  | nil => rfl
  | cons b l ih =>
    rw [List.length_cons, List.cons_append, List.modify_succ_cons, ih]
    rfl

theorem countP_modify {p : α → Bool} {a : α} (h : l[i]? = some a) :
    (l.modify i f).countP p + (if p a then 1 else 0) =
      l.countP p + if p (f a) then 1 else 0 := by
  induction l generalizing i with
  | nil => cases h
  | cons b l ih =>
    cases i with
    | zero =>
      obtain rfl := Option.some.inj h
      rw [List.modify_zero_cons, List.countP_cons, List.countP_cons]
      omega
    | succ i =>
      have hl := ih h
      rw [List.modify_succ_cons, List.countP_cons, List.countP_cons]
      omega

end Modify

/-! ## What holds of an entry -/

/-- What holds of a caller of an entry that ended so, or still runs. -/
structure Caller.Inv (ended : Option (Ending V E)) (c : Caller V E) : Prop where
  waiting : ended = none → c.released = c.aborted
  released : c.released = true → c.aborted = true ∨ c.finished = true
  finished : c.finished = true → c.settled ≠ none ∧ (ended = none → c.aborted = true)
  unsettled : c.settled = none → c.aborted = false
  aborted : c.settled = some .abort → c.aborted = true
  outcome : ∀ o, c.settled = some (.outcome o) → ∃ e, ended = some e ∧ e.outcome = o

/-- What holds of every entry: the counter counts the callers not released,
and only an aborted loader gives up. -/
structure LoaderRun.Inv (run : LoaderRun V E) : Prop where
  counted : run.consumers = run.callers.countP fun c => !c.released
  callers : ∀ c ∈ run.callers, c.Inv run.ended
  ending : ∀ e, run.ended = some e → e.outcome = .abortError → e.aborted = true
  published : run.published = true → run.ended ≠ none

namespace LoaderRun

variable {run : LoaderRun V E} {c : Nat} {a : Caller V E}

theorem inv_start : (start : LoaderRun V E).Inv where
  counted := rfl
  callers := fun c hc => by cases hc
  ending := fun e he => by cases he
  published := fun h => by cases h

/-- One caller changes, and the counter with it. -/
theorem Inv.change (h : run.Inv) (hc : run.callers[c]? = some a) (f : Caller V E → Caller V E)
    (hf : (f a).Inv run.ended) (consumers : Nat) (signalled : Bool)
    (hcount : consumers + (if !a.released then 1 else 0) =
      run.consumers + if !(f a).released then 1 else 0) :
    Inv { run with callers := run.callers.modify c f, consumers, signalled } where
  counted := by
    have hcounted := countP_modify (f := f) (p := fun c => !c.released) hc
    rw [← h.counted] at hcounted
    simp only at hcounted ⊢
    omega
  callers := forall_mem_modify h.callers fun b hb => by
    obtain rfl := Option.some.inj (hc.symm.trans hb)
    exact hf
  ending := h.ending
  published := h.published

/-- While the loader runs, no consumers are left only when all aborted. -/
theorem Inv.aborted_of_no_consumers (h : run.Inv) (hrun : run.ended = none)
    (h0 : run.consumers = 0) : ∀ c ∈ run.callers, c.aborted = true := by
  intro c hc
  have hcount : (run.callers.countP fun c => !c.released) = 0 := h.counted ▸ h0
  have hreleased := List.countP_eq_zero.mp hcount c hc
  rw [← (h.callers c hc).waiting hrun]
  simpa using hreleased

theorem release_of_released (hc : run.callers[c]? = some a) (h : a.released = true) :
    run.release c = run := by
  simp [release, hc, h]

theorem release_of_not_released (hc : run.callers[c]? = some a) (h : a.released = false) :
    run.release c =
      { run with
        callers := run.callers.modify c fun caller => { caller with released := true }
        consumers := run.consumers - 1
        signalled := run.signalled || (decide (run.consumers - 1 = 0) && a.aborted) } := by
  simp [release, hc, h, setCaller]

/-- **What an abort does** to a caller that listens. -/
theorem abort_eq (h : run.Inv) (hc : run.callers[c]? = some a) (ha : a.aborted = false)
    (hf : a.finished = false) :
    run.abort c =
      { run with
        callers := run.callers.modify c fun caller =>
          { caller with
            aborted := true, released := true, settled := caller.settled.or (some .abort) }
        consumers := run.consumers - 1
        signalled := run.signalled || decide (run.consumers - 1 = 0) } := by
  have hr : a.released = false := by
    cases hr : a.released with
    | false => rfl
    | true =>
      rcases (h.callers a (List.mem_of_getElem? hc)).released hr with h' | h'
      · rw [ha] at h'
        cases h'
      · rw [hf] at h'
        cases h'
  have hc' : (run.setCaller c fun caller => { caller with aborted := true }).callers[c]? =
      some { a with aborted := true } := by
    simp [setCaller, hc]
  rw [abort, hc]
  simp only [ha, hf, Bool.false_eq_true, if_false]
  rw [release_of_not_released hc' hr]
  simp only [setCaller, List.modify_modify_eq, Bool.and_true]
  rfl

theorem inv_abort (h : run.Inv) (c : Nat) : (run.abort c).Inv := by
  cases hc : run.callers[c]? with
  | none =>
    rw [abort, hc]
    exact h
  | some a =>
    have ha := h.callers a (List.mem_of_getElem? hc)
    cases hab : a.aborted with
    | true =>
      rw [abort, hc]
      simpa [hab] using h
    | false =>
      cases hf : a.finished with
      | true =>
        -- a finished caller of a loader that has ended: nobody listens
        have hended : run.ended ≠ none := fun hrun => by
          rw [(ha.finished hf).2 hrun] at hab
          cases hab
        have heq : run.abort c = { run with
            callers := run.callers.modify c fun caller => { caller with aborted := true } } := by
          simp [abort, hc, hab, hf, setCaller]
        rw [heq]
        refine h.change hc _ ?_ run.consumers run.signalled rfl
        exact ⟨fun hrun => absurd hrun hended, fun _ => Or.inl rfl,
          fun _ => ⟨(ha.finished hf).1, fun _ => rfl⟩, fun hs => absurd hs (ha.finished hf).1,
          fun _ => rfl, ha.outcome⟩
      | false =>
        rw [abort_eq h hc hab hf]
        have hr : a.released = false := by
          cases hr : a.released with
          | false => rfl
          | true => rcases ha.released hr with h' | h' <;> simp_all
        have hpos : 0 < run.consumers := by
          rw [h.counted]
          exact List.countP_pos_iff.mpr ⟨a, List.mem_of_getElem? hc, by simp [hr]⟩
        refine h.change hc _ ?_ (run.consumers - 1) _ ?_
        · refine ⟨fun _ => rfl, fun _ => Or.inl rfl, ?_, ?_, fun _ => rfl, ?_⟩
          · exact fun hfin => by simp [hf] at hfin
          · intro hnone
            cases hs : a.settled <;> simp [hs] at hnone
          · intro o ho
            cases hs : a.settled with
            | none => simp [hs] at ho
            | some x =>
              simp only [hs, Option.some_or] at ho
              exact ha.outcome o (hs.trans ho)
        · simp only [hr, Bool.not_false, if_true, Bool.not_true, Bool.false_eq_true, if_false]
          omega

theorem inv_ends (h : run.Inv) (outcome : Outcome V E) : (run.ends outcome).Inv := by
  have hset : ∀ e : Ending V E, run.ended = none → (e.outcome = .abortError → e.aborted = true) →
      Inv { run with ended := some e } := by
    intro e hrun he
    refine ⟨h.counted, fun c hc => ?_, fun e' he' => ?_, fun _ => by simp⟩
    · have hc := h.callers c hc
      have hnone : some e ≠ none := Option.some_ne_none e
      refine ⟨fun hn => absurd hn hnone, hc.released,
        fun hf => ⟨(hc.finished hf).1, fun hn => absurd hn hnone⟩, hc.unsettled, hc.aborted,
        fun o ho => ?_⟩
      obtain ⟨e', he', -⟩ := hc.outcome o ho
      rw [hrun] at he'
      cases he'
    · obtain rfl := Option.some.inj he'
      exact he
  unfold ends
  split
  · exact h
  · rename_i hrun
    split
    · exact hset _ hrun fun _ => rfl
    · exact h
  · rename_i hrun hne
    exact hset _ hrun fun he => absurd he hne

theorem inv_publish (h : run.Inv) : run.publish.Inv := by
  refine ⟨h.counted, h.callers, h.ending, fun hp => ?_⟩
  have hsome : run.ended.isSome = true := hp
  exact Option.isSome_iff_ne_none.mp hsome

theorem inv_deliver (h : run.Inv) (c : Nat) : (run.deliver c).Inv := by
  unfold deliver
  split
  · exact h
  · rename_i e he
    split
    · cases hc : run.callers[c]? with
      | none =>
        have hsame : run.callers.modify c (fun caller =>
            { caller with settled := caller.settled.or (some (.outcome e.outcome)) }) =
            run.callers := by
          rw [List.modify_eq_self (by simpa using hc)]
        rw [setCaller, hsame]
        exact h
      | some a =>
        have ha := h.callers a (List.mem_of_getElem? hc)
        refine h.change hc _ ?_ run.consumers run.signalled rfl
        refine ⟨ha.waiting, ha.released, fun hf => ⟨?_, (ha.finished hf).2⟩, ?_, ?_, ?_⟩
        · cases hs : a.settled <;> simp
        · intro hnone
          cases hs : a.settled <;> simp [hs] at hnone
        · intro habort
          cases hs : a.settled with
          | none => simp [hs] at habort
          | some x =>
            simp only [hs, Option.some_or] at habort
            exact ha.aborted (hs.trans habort)
        · intro o ho
          cases hs : a.settled with
          | none =>
            simp only [hs, Option.none_or, Option.some.injEq, Settlement.outcome.injEq] at ho
            exact ⟨e, he, ho⟩
          | some x =>
            simp only [hs, Option.some_or] at ho
            exact ha.outcome o (hs.trans ho)
    · exact h

theorem inv_finish (h : run.Inv) (c : Nat) : (run.finish c).Inv := by
  cases hc : run.callers[c]? with
  | none =>
    rw [finish, hc]
    exact h
  | some a =>
    rw [finish, hc]
    simp only
    split
    · rename_i hok
      have ha := h.callers a (List.mem_of_getElem? hc)
      have hended := h.published hok.1
      have hsettled : a.settled ≠ none := Option.isSome_iff_ne_none.mp hok.2
      have hc' : (run.setCaller c fun caller => { caller with finished := true }).callers[c]? =
          some { a with finished := true } := by
        simp [setCaller, hc]
      cases hr : a.released with
      | true =>
        rw [release_of_released hc' hr]
        refine h.change hc _ ?_ run.consumers run.signalled rfl
        exact ⟨fun hrun => absurd hrun hended, fun _ => Or.inr rfl,
          fun _ => ⟨hsettled, fun hrun => absurd hrun hended⟩, ha.unsettled, ha.aborted, ha.outcome⟩
      | false =>
        rw [release_of_not_released hc' hr]
        simp only [setCaller, List.modify_modify_eq]
        have hpos : 0 < run.consumers := by
          rw [h.counted]
          exact List.countP_pos_iff.mpr ⟨a, List.mem_of_getElem? hc, by simp [hr]⟩
        refine h.change hc _ ?_ (run.consumers - 1) _ ?_
        · exact ⟨fun hrun => absurd hrun hended, fun _ => Or.inr rfl,
            fun _ => ⟨hsettled, fun hrun => absurd hrun hended⟩, ha.unsettled, ha.aborted, ha.outcome⟩
        · simp only [hr, Function.comp, Bool.not_false, if_true, Bool.not_true, Bool.false_eq_true,
            if_false]
          omega
    · exact h

theorem inv_apply (h : run.Inv) (event : EntryEvent V E) : (event.apply run).Inv := by
  cases event with
  | abort c => exact inv_abort h c
  | ends outcome => exact inv_ends h outcome
  | publish => exact inv_publish h
  | deliver c => exact inv_deliver h c
  | finish c => exact inv_finish h c

/-! ## When an entry's loader is aborted -/

@[simp] theorem release_ended (run : LoaderRun V E) (c : Nat) : (run.release c).ended = run.ended := by
  unfold release
  split
  · rfl
  · split <;> rfl

theorem release_signalled (h : (run.release c).signalled = true) :
    run.signalled = true ∨ (run.release c).consumers = 0 := by
  unfold release at h ⊢
  split at h
  · exact Or.inl h
  · rename_i a hc
    split at h
    · exact Or.inl h
    · rename_i hr
      simp only [Bool.or_eq_true, Bool.and_eq_true, decide_eq_true_eq] at h
      rcases h with h | h
      · exact Or.inl h
      · exact Or.inr (by simpa [hr] using h.1)

theorem release_aborted (run : LoaderRun V E) (c : Nat) (h : ∀ b ∈ run.callers, b.aborted = true) :
    ∀ b ∈ (run.release c).callers, b.aborted = true := by
  unfold release
  split
  · exact h
  · split
    · exact h
    · exact forall_mem_modify h fun b hb => h b (List.mem_of_getElem? hb)

/-- Only the release of the last consumer aborts a loader. -/
theorem signalled_cases (event : EntryEvent V E) (h : (event.apply run).signalled = true) :
    run.signalled = true ∨ (event.apply run).consumers = 0 := by
  cases event with
  | abort c =>
    simp only [EntryEvent.apply, abort] at h ⊢
    split at h
    · exact Or.inl h
    · split at h
      · exact Or.inl h
      · rename_i ha
        split at h
        · exact Or.inl h
        · rename_i hf
          rcases release_signalled h with h | h
          · exact Or.inl h
          · exact Or.inr (by simpa [ha, hf, setCaller] using h)
  | ends outcome =>
    simp only [EntryEvent.apply, ends] at h
    split at h
    · exact Or.inl h
    · split at h <;> exact Or.inl h
    · exact Or.inl h
  | publish => exact Or.inl h
  | deliver c =>
    simp only [EntryEvent.apply, deliver] at h
    split at h
    · exact Or.inl h
    · split at h <;> exact Or.inl h
  | finish c =>
    simp only [EntryEvent.apply, finish] at h ⊢
    split at h
    · exact Or.inl h
    · split at h
      · rename_i hok
        rcases release_signalled h with h | h
        · exact Or.inl h
        · exact Or.inr (by simpa [hok] using h)
      · exact Or.inl h

/-- A loader ends once, and is remembered as it was then. -/
theorem ended_cases (run : LoaderRun V E) (event : EntryEvent V E) : (event.apply run).ended = run.ended ∨
    run.ended = none ∧ ∃ e, (event.apply run).ended = some e ∧ e.aborted = run.signalled := by
  cases event with
  | abort c =>
    left
    simp only [EntryEvent.apply, abort]
    split
    · rfl
    · split
      · rfl
      · split
        · rfl
        · simp [setCaller]
  | ends outcome =>
    simp only [EntryEvent.apply, ends]
    split
    · exact Or.inl rfl
    · rename_i hrun
      split
      · rename_i hs
        exact Or.inr ⟨hrun, _, rfl, hs.symm⟩
      · exact Or.inl rfl
    · rename_i hrun _
      exact Or.inr ⟨hrun, _, rfl, rfl⟩
  | publish => exact Or.inl rfl
  | deliver c =>
    left
    simp only [EntryEvent.apply, deliver]
    split
    · rfl
    · split <;> rfl
  | finish c =>
    left
    simp only [EntryEvent.apply, finish]
    split
    · rfl
    · split
      · simp [setCaller]
      · rfl

/-- A raised signal stays raised. -/
theorem apply_aborted (event : EntryEvent V E) (h : ∀ b ∈ run.callers, b.aborted = true) :
    ∀ b ∈ (event.apply run).callers, b.aborted = true := by
  have hmod : ∀ (c : Nat) (f : Caller V E → Caller V E),
      (∀ b, b.aborted = true → (f b).aborted = true) →
        ∀ b ∈ run.callers.modify c f, b.aborted = true := fun c f hf =>
    forall_mem_modify h fun b hb => hf b (h b (List.mem_of_getElem? hb))
  cases event with
  | abort c =>
    simp only [EntryEvent.apply, abort]
    split
    · exact h
    · split
      · exact h
      · split
        · exact hmod c _ fun b _ => rfl
        · have hrel := release_aborted
            (run.setCaller c fun caller => { caller with aborted := true }) c
            (hmod c _ fun b _ => rfl)
          exact forall_mem_modify hrel fun b hb => hrel b (List.mem_of_getElem? hb)
  | ends outcome =>
    simp only [EntryEvent.apply, ends]
    split
    · exact h
    · split <;> exact h
    · exact h
  | publish => exact h
  | deliver c =>
    simp only [EntryEvent.apply, deliver]
    split
    · exact h
    · split
      · exact hmod c _ fun b hb => hb
      · exact h
  | finish c =>
    simp only [EntryEvent.apply, finish]
    split
    · exact h
    · split
      · exact release_aborted _ c (hmod c _ fun b hb => hb)
      · exact h

/-- **A loader is aborted only when everyone who joined it has aborted.** -/
theorem cut_apply (h : run.Inv) (event : EntryEvent V E) (hcut : (event.apply run).cut = true) :
    run.cut = true ∨ ∀ b ∈ (event.apply run).callers, b.aborted = true := by
  rcases ended_cases run event with heq | ⟨hrun, e, he, hs⟩
  · cases hrun : run.ended with
    | some e =>
      left
      simpa [cut, heq, hrun] using hcut
    | none =>
      have hsignal : (event.apply run).signalled = true := by
        simpa [cut, heq, hrun] using hcut
      rcases signalled_cases event hsignal with hs | h0
      · exact Or.inl (by simpa [cut, hrun] using hs)
      · exact Or.inr ((inv_apply h event).aborted_of_no_consumers (heq.trans hrun) h0)
  · left
    have hab : e.aborted = true := by simpa [cut, he] using hcut
    simpa [cut, hrun, ← hs] using hab

/-! ## Joining -/

theorem join_live_eq (run : LoaderRun V E) : run.join false =
    { run with
      consumers := run.consumers + 1
      callers := run.callers ++
        [{ aborted := false, released := false, settled := none, finished := false }] } := by
  simp [join]

/-- A caller that comes with its signal raised leaves at once. -/
theorem join_aborted_eq (run : LoaderRun V E) : run.join true =
    { run with
      callers := run.callers ++
        [{ aborted := true, released := true, settled := some .abort, finished := true }]
      signalled := run.signalled || decide (run.consumers = 0) } := by
  simp [join, release, setCaller, modify_append_singleton]

theorem inv_join (h : run.Inv) (aborted : Bool) : (run.join aborted).Inv := by
  cases aborted with
  | false =>
    rw [join_live_eq]
    refine ⟨?_, ?_, h.ending, h.published⟩
    · simp [h.counted]
    · intro b hb
      rcases List.mem_append.mp hb with hb | hb
      · exact h.callers b hb
      · obtain rfl := List.mem_singleton.mp hb
        exact ⟨fun _ => rfl, nofun, nofun, fun _ => rfl, nofun, nofun⟩
  | true =>
    rw [join_aborted_eq]
    refine ⟨?_, ?_, h.ending, h.published⟩
    · simp [h.counted]
    · intro b hb
      rcases List.mem_append.mp hb with hb | hb
      · exact h.callers b hb
      · obtain rfl := List.mem_singleton.mp hb
        exact ⟨fun _ => rfl, fun _ => Or.inl rfl, fun _ => ⟨Option.some_ne_none _, fun _ => rfl⟩,
          nofun, fun _ => rfl, nofun⟩

theorem cut_join (h : run.Inv) (aborted : Bool) (hcut : (run.join aborted).cut = true) :
    run.cut = true ∨ ∀ b ∈ (run.join aborted).callers, b.aborted = true := by
  cases aborted with
  | false =>
    rw [join_live_eq] at hcut
    exact Or.inl hcut
  | true =>
    cases hrun : run.ended with
    | some e =>
      left
      rw [join_aborted_eq] at hcut
      simpa [cut, hrun] using hcut
    | none =>
      have hjoined := inv_join h true
      rw [join_aborted_eq] at hcut hjoined ⊢
      have hsignal : run.signalled = true ∨ run.consumers = 0 := by simpa [cut, hrun] using hcut
      rcases hsignal with hs | h0
      · exact Or.inl (by simpa [cut, hrun] using hs)
      · exact Or.inr (hjoined.aborted_of_no_consumers hrun h0)

end LoaderRun

/-! ## Every state reached -/

/-- A caller of an entry, by the entry's place and its own. -/
def State.caller? (s : State V E) (i c : Nat) : Option (Caller V E) :=
  s.runs[i]?.bind fun run => run.callers[c]?

/-- Where the next caller to join will stand. -/
def State.newcomer (s : State V E) : Nat × Nat :=
  match s.inFlight with
  | some i => (i, (s.runs[i]?.map (·.callers.length)).getD 0)
  | none => (s.runs.length, 0)

/-- What every step keeps. -/
structure State.Inv (s : State V E) : Prop where
  runs : ∀ run ∈ s.runs, run.Inv
  inFlight : ∀ i, s.inFlight = some i → i < s.runs.length

/-- A caller whose own signal is not raised settles with the outcome of a
loader that nobody aborted, and not with an `AbortError`. -/
def Isolated (s : State V E) : Prop :=
  ∀ run ∈ s.runs, ∀ c ∈ run.callers, c.aborted = false → ∀ x, c.settled = some x →
    ∃ e, run.ended = some e ∧ x = .outcome e.outcome ∧ e.aborted = false ∧
      e.outcome ≠ .abortError

/-- What one step does to the callers' promises and to the loaders. -/
structure StepSound (s : State V E) (event : Event V E) : Prop where
  aborts : ∀ i c a, event = .entry i (.abort c) → s.caller? i c = some a → a.settled = none →
    ∃ a', (step s event).caller? i c = some a' ∧ a'.settled = some .abort
  refuses : event = .join true →
    ∃ a, (step s event).caller? s.newcomer.1 s.newcomer.2 = some a ∧ a.settled = some .abort
  stays : ∀ i c a x, s.caller? i c = some a → a.settled = some x →
    ∃ a', (step s event).caller? i c = some a' ∧ a'.settled = some x
  settles : ∀ i c run a e, event = .entry i (.deliver c) → s.runs[i]? = some run →
    run.callers[c]? = some a → run.ended = some e → run.published = true → a.settled = none →
      ∃ a', (step s event).caller? i c = some a' ∧ a'.settled = some (.outcome e.outcome)
  cuts : ∀ (i : Nat) (run' : LoaderRun V E), (step s event).runs[i]? = some run' →
    run'.cut = true → (∀ run, s.runs[i]? = some run → run.cut = false) →
      ∀ b ∈ run'.callers, b.aborted = true

/-- A caller that is still interested does not find an entry whose loader
was aborted. -/
def JoinsLive (s : State V E) (event : Event V E) : Prop :=
  event = .join false → ∀ i run, s.inFlight = some i → s.runs[i]? = some run → run.cut = false

/-- Only callers that aborted share an aborted loader. -/
def OnlyAborted (s : State V E) : Prop :=
  ∀ run ∈ s.runs, run.cut = true → ∀ c ∈ run.callers, c.aborted = true

theorem step_entry_runs (s : State V E) (i : Nat) (event : EntryEvent V E) :
    (step s (.entry i event)).runs = s.runs.modify i event.apply := by
  cases event <;> rfl

theorem step_join_some {s : State V E} {i : Nat} (h : s.inFlight = some i) (aborted : Bool) :
    step s (.join aborted) = { s with runs := s.runs.modify i fun run => run.join aborted } := by
  simp [step, State.join, h]

theorem step_join_none {s : State V E} (h : s.inFlight = none) (aborted : Bool) :
    step s (.join aborted) =
      { runs := s.runs ++ [LoaderRun.start.join aborted], inFlight := some s.runs.length } := by
  simp [step, State.join, h]

theorem inv_empty : (State.empty : State V E).Inv :=
  ⟨fun _ h => absurd h List.not_mem_nil, nofun⟩

theorem inv_step {s : State V E} (h : s.Inv) (event : Event V E) : (step s event).Inv := by
  cases event with
  | join aborted =>
    cases hflight : s.inFlight with
    | some i =>
      rw [step_join_some hflight]
      refine ⟨forall_mem_modify h.runs fun run hrun => ?_, fun j hj => ?_⟩
      · exact LoaderRun.inv_join (h.runs run (List.mem_of_getElem? hrun)) aborted
      · rw [List.length_modify]
        exact h.inFlight j hj
    | none =>
      rw [step_join_none hflight]
      refine ⟨fun run hrun => ?_, fun j hj => ?_⟩
      · rcases List.mem_append.mp hrun with hrun | hrun
        · exact h.runs run hrun
        · obtain rfl := List.mem_singleton.mp hrun
          exact LoaderRun.inv_join LoaderRun.inv_start aborted
      · obtain rfl := Option.some.inj hj
        rw [List.length_append, List.length_singleton]
        exact Nat.lt_succ_self _
  | entry i event =>
    refine ⟨?_, fun j hj => ?_⟩
    · rw [step_entry_runs]
      exact forall_mem_modify h.runs fun run hrun =>
        LoaderRun.inv_apply (h.runs run (List.mem_of_getElem? hrun)) event
    · rw [step_entry_runs, List.length_modify]
      refine h.inFlight j ?_
      cases event with
      | publish =>
        simp only [step, State.forget] at hj
        split at hj
        · cases hj
        · exact hj
      | abort c => exact hj
      | ends outcome => exact hj
      | deliver c => exact hj
      | finish c => exact hj

theorem onlyAborted_step {s : State V E} (hi : s.Inv) (h : OnlyAborted s) {event : Event V E}
    (hlive : JoinsLive s event) : OnlyAborted (step s event) := by
  cases event with
  | join aborted =>
    cases hflight : s.inFlight with
    | some i =>
      rw [step_join_some hflight]
      refine forall_mem_modify (p := fun run : LoaderRun V E =>
        run.cut = true → ∀ c ∈ run.callers, c.aborted = true) h fun run hrun hcut => ?_
      rcases LoaderRun.cut_join (hi.runs run (List.mem_of_getElem? hrun)) aborted hcut with hc | hall
      · cases aborted with
        | false =>
          rw [hlive rfl i run hflight hrun] at hc
          cases hc
        | true =>
          intro b hb
          rw [LoaderRun.join_aborted_eq] at hb
          rcases List.mem_append.mp hb with hb | hb
          · exact h run (List.mem_of_getElem? hrun) hc b hb
          · rw [List.mem_singleton.mp hb]
      · exact hall
    | none =>
      rw [step_join_none hflight]
      intro run hrun hcut
      rcases List.mem_append.mp hrun with hrun | hrun
      · exact h run hrun hcut
      · obtain rfl := List.mem_singleton.mp hrun
        rcases LoaderRun.cut_join LoaderRun.inv_start aborted hcut with hc | hall
        · cases hc
        · exact hall
  | entry i event =>
    unfold OnlyAborted
    rw [step_entry_runs]
    refine forall_mem_modify (p := fun run : LoaderRun V E =>
      run.cut = true → ∀ c ∈ run.callers, c.aborted = true) h fun run hrun hcut => ?_
    have hmem := List.mem_of_getElem? hrun
    rcases LoaderRun.cut_apply (hi.runs run hmem) event hcut with hc | hall
    · exact LoaderRun.apply_aborted event (h run hmem hc)
    · exact hall

/-- Where only aborted callers share an aborted loader, the others get
outcomes of loaders that ran on. -/
theorem isolated_of_onlyAborted {s : State V E} (hi : s.Inv) (h : OnlyAborted s) : Isolated s := by
  intro run hrun c hc haborted x hx
  have hr := hi.runs run hrun
  have hcaller := hr.callers c hc
  cases x with
  | abort =>
    rw [hcaller.aborted hx] at haborted
    cases haborted
  | outcome o =>
    obtain ⟨e, he, rfl⟩ := hcaller.outcome o hx
    have hnot : e.aborted = false := by
      cases hea : e.aborted with
      | false => rfl
      | true =>
        have hcut : run.cut = true := by simp [LoaderRun.cut, he, hea]
        rw [h run hrun hcut c hc] at haborted
        cases haborted
    refine ⟨e, he, rfl, hnot, fun habort => ?_⟩
    rw [hr.ending e he habort] at hnot
    cases hnot

/-- Releasing settles nothing. -/
theorem release_settled (run : LoaderRun V E) (c : Nat) {j : Nat} {a : Caller V E}
    (h : run.callers[j]? = some a) :
    ∃ a', (run.release c).callers[j]? = some a' ∧ a'.settled = a.settled := by
  unfold LoaderRun.release
  split
  · exact ⟨a, h, rfl⟩
  · split
    · exact ⟨a, h, rfl⟩
    · simp only [LoaderRun.setCaller, List.getElem?_modify, h]
      refine ⟨_, rfl, ?_⟩
      split <;> rfl

theorem modify_settled {l : List (Caller V E)} {c j : Nat} {a : Caller V E} {x : Settlement V E}
    (f : Caller V E → Caller V E) (hf : ∀ b, b.settled = some x → (f b).settled = some x)
    (h : l[j]? = some a) (hx : a.settled = some x) :
    ∃ a', (l.modify c f)[j]? = some a' ∧ a'.settled = some x := by
  rw [List.getElem?_modify, h]
  refine ⟨_, rfl, ?_⟩
  split
  · exact hf a hx
  · exact hx

/-- A settled promise stays as it is. -/
theorem apply_settled {run : LoaderRun V E} (event : EntryEvent V E) {j : Nat} {a : Caller V E}
    {x : Settlement V E} (h : run.callers[j]? = some a) (hx : a.settled = some x) :
    ∃ a', (event.apply run).callers[j]? = some a' ∧ a'.settled = some x := by
  -- no event takes a settlement back
  cases event with
  | abort c =>
    simp only [EntryEvent.apply, LoaderRun.abort]
    split
    · exact ⟨a, h, hx⟩
    · split
      · exact ⟨a, h, hx⟩
      · obtain ⟨b, hb, hbx⟩ := modify_settled (c := c)
          (fun caller : Caller V E => { caller with aborted := true }) (fun _ hs => hs) h hx
        split
        · exact ⟨b, hb, hbx⟩
        · obtain ⟨d, hd, hdb⟩ := release_settled
            (run.setCaller c fun caller => { caller with aborted := true }) c hb
          exact modify_settled _ (fun _ hs => by simp [hs]) hd (hdb.trans hbx)
  | ends outcome =>
    refine ⟨a, ?_, hx⟩
    simp only [EntryEvent.apply, LoaderRun.ends]
    split
    · exact h
    · split <;> exact h
    · exact h
  | publish => exact ⟨a, h, hx⟩
  | deliver c =>
    simp only [EntryEvent.apply, LoaderRun.deliver]
    split
    · exact ⟨a, h, hx⟩
    · split
      · exact modify_settled _ (fun _ hs => by simp [hs]) h hx
      · exact ⟨a, h, hx⟩
  | finish c =>
    simp only [EntryEvent.apply, LoaderRun.finish]
    split
    · exact ⟨a, h, hx⟩
    · split
      · obtain ⟨b, hb, hbx⟩ := modify_settled (c := c)
          (fun caller : Caller V E => { caller with finished := true }) (fun _ hs => hs) h hx
        obtain ⟨d, hd, hdb⟩ := release_settled
          (run.setCaller c fun caller => { caller with finished := true }) c hb
        exact ⟨d, hd, hdb.trans hbx⟩
      · exact ⟨a, h, hx⟩

theorem join_caller {run : LoaderRun V E} (aborted : Bool) {j : Nat} {a : Caller V E}
    (h : run.callers[j]? = some a) : (run.join aborted).callers[j]? = some a := by
  have hj : j < run.callers.length := (List.getElem?_eq_some_iff.mp h).1
  cases aborted with
  | false => rw [LoaderRun.join_live_eq, List.getElem?_append_left hj, h]
  | true => rw [LoaderRun.join_aborted_eq, List.getElem?_append_left hj, h]

theorem caller?_eq_some {s : State V E} {i c : Nat} {a : Caller V E} :
    s.caller? i c = some a ↔ ∃ run, s.runs[i]? = some run ∧ run.callers[c]? = some a :=
  Option.bind_eq_some_iff

/-- What a step makes of the entry at a place. -/
theorem step_run {s : State V E} (event : Event V E) {i : Nat} {run : LoaderRun V E}
    (h : s.runs[i]? = some run) :
    (∃ aborted, event = .join aborted ∧ s.inFlight = some i ∧
        (step s event).runs[i]? = some (run.join aborted)) ∨
      (∃ e, event = .entry i e ∧ (step s event).runs[i]? = some (e.apply run)) ∨
      ((step s event).runs[i]? = some run ∧ ∀ e, event ≠ .entry i e) := by
  have hi : i < s.runs.length := (List.getElem?_eq_some_iff.mp h).1
  cases event with
  | join aborted =>
    cases hflight : s.inFlight with
    | some j =>
      rw [step_join_some hflight, List.getElem?_modify, h]
      by_cases hji : j = i
      · subst hji
        exact Or.inl ⟨aborted, rfl, rfl, by simp⟩
      · exact Or.inr (Or.inr ⟨by simp [hji], nofun⟩)
    | none =>
      rw [step_join_none hflight, List.getElem?_append_left hi]
      exact Or.inr (Or.inr ⟨h, nofun⟩)
  | entry j e =>
    rw [step_entry_runs, List.getElem?_modify, h]
    by_cases hji : j = i
    · subst hji
      exact Or.inr (Or.inl ⟨e, rfl, by simp⟩)
    · refine Or.inr (Or.inr ⟨by simp [hji], fun e' he' => ?_⟩)
      cases he'
      exact hji rfl

theorem stepSound {s : State V E} (hi : s.Inv) (event : Event V E) : StepSound s event where
  aborts := by
    rintro i c a rfl ha hnone
    obtain ⟨run, hrun, hc⟩ := caller?_eq_some.mp ha
    have hinv := hi.runs run (List.mem_of_getElem? hrun)
    have hcaller := hinv.callers a (List.mem_of_getElem? hc)
    have hfin : a.finished = false := by
      cases hf : a.finished with
      | false => rfl
      | true => exact absurd hnone (hcaller.finished hf).1
    have heq := LoaderRun.abort_eq hinv hc (hcaller.unsettled hnone) hfin
    refine ⟨{ a with aborted := true, released := true, settled := some .abort },
      caller?_eq_some.mpr ⟨run.abort c, ?_, ?_⟩, rfl⟩
    · rw [step_entry_runs, List.getElem?_modify, hrun]
      simp [EntryEvent.apply]
    · rw [heq]
      simp [hc, hnone]
  refuses := by
    rintro rfl
    unfold State.newcomer
    cases hflight : s.inFlight with
    | some i =>
      obtain ⟨run, hrun⟩ : ∃ run, s.runs[i]? = some run :=
        ⟨_, List.getElem?_eq_getElem (hi.inFlight i hflight)⟩
      refine ⟨{ aborted := true, released := true, settled := some .abort, finished := true },
        caller?_eq_some.mpr ⟨run.join true, ?_, ?_⟩, rfl⟩
      · rw [step_join_some hflight, List.getElem?_modify, hrun]
        simp
      · rw [LoaderRun.join_aborted_eq]
        simp [hrun]
    | none =>
      refine ⟨{ aborted := true, released := true, settled := some .abort, finished := true },
        caller?_eq_some.mpr ⟨LoaderRun.start.join true, ?_, ?_⟩, rfl⟩
      · rw [step_join_none hflight]
        simp
      · rw [LoaderRun.join_aborted_eq]
        rfl
  stays := by
    intro i c a x ha hx
    obtain ⟨run, hrun, hc⟩ := caller?_eq_some.mp ha
    rcases step_run event hrun with ⟨aborted, -, -, hstep⟩ | ⟨e, -, hstep⟩ | ⟨hstep, -⟩
    · exact ⟨a, caller?_eq_some.mpr ⟨_, hstep, join_caller aborted hc⟩, hx⟩
    · obtain ⟨a', ha', hx'⟩ := apply_settled e hc hx
      exact ⟨a', caller?_eq_some.mpr ⟨_, hstep, ha'⟩, hx'⟩
    · exact ⟨a, caller?_eq_some.mpr ⟨run, hstep, hc⟩, hx⟩
  settles := by
    rintro i c run a e rfl hrun hc he hpub hnone
    refine ⟨{ a with settled := some (.outcome e.outcome) },
      caller?_eq_some.mpr ⟨run.deliver c, ?_, ?_⟩, rfl⟩
    · rw [step_entry_runs, List.getElem?_modify, hrun]
      simp [EntryEvent.apply]
    · simp [LoaderRun.deliver, he, hpub, LoaderRun.setCaller, hc, hnone]
  cuts := by
    intro i run' hrun' hcut hbefore
    cases hrun : s.runs[i]? with
    | some run =>
      have hinv := hi.runs run (List.mem_of_getElem? hrun)
      have hnot := hbefore run hrun
      rcases step_run event hrun with ⟨aborted, -, -, hstep⟩ | ⟨e, -, hstep⟩ | ⟨hstep, -⟩
      · obtain rfl := Option.some.inj (hstep.symm.trans hrun')
        exact (LoaderRun.cut_join hinv aborted hcut).resolve_left (by simp [hnot])
      · obtain rfl := Option.some.inj (hstep.symm.trans hrun')
        exact (LoaderRun.cut_apply hinv e hcut).resolve_left (by simp [hnot])
      · obtain rfl := Option.some.inj (hstep.symm.trans hrun')
        rw [hnot] at hcut
        cases hcut
    | none =>
      -- the entry is new: its caller started the loader
      cases event with
      | join aborted =>
        cases hflight : s.inFlight with
        | some j =>
          rw [step_join_some hflight, List.getElem?_modify, hrun] at hrun'
          cases hrun'
        | none =>
          rw [step_join_none hflight] at hrun'
          have hmem := List.mem_of_getElem? hrun'
          have hnew : run' = LoaderRun.start.join aborted := by
            have hlen := List.getElem?_eq_none_iff.mp hrun
            rw [List.getElem?_append_right hlen] at hrun'
            exact List.mem_singleton.mp (List.mem_of_getElem? hrun')
          subst hnew
          exact (LoaderRun.cut_join LoaderRun.inv_start aborted hcut).resolve_left nofun
      | entry j e =>
        rw [step_entry_runs, List.getElem?_modify, hrun] at hrun'
        cases hrun'

/-- The steps of every run are sound. -/
theorem stepSound_run {s : State V E} (hi : s.Inv) (events : List (Event V E)) :
    EachStep step StepSound s events := by
  induction events generalizing s with
  | nil => trivial
  | cons event events ih => exact ⟨stepSound hi event, ih (inv_step hi event)⟩

/-- **Callers are isolated in every run in which no caller that is still
interested joins an entry whose loader was aborted.** Aborts reach the
caller and, when everyone has left, the loader, in every run. -/
theorem coalesce_isolates (events : List (Event V E))
    (hlive : EachStep step JoinsLive State.empty events) :
    Always step Isolated State.empty events ∧ EachStep step StepSound State.empty events := by
  refine ⟨?_, stepSound_run inv_empty events⟩
  have hkept : Always step (fun s => s.Inv ∧ OnlyAborted s) State.empty events :=
    always_of_eachStep (fun s event h hl => ⟨inv_step h.1 event, onlyAborted_step h.1 h.2 hl⟩)
      ⟨inv_empty, fun run hrun => absurd hrun List.not_mem_nil⟩ hlive
  rw [always_iff_initial] at hkept ⊢
  intro l₁ l₂ hl
  obtain ⟨hi, honly⟩ := hkept l₁ l₂ hl
  exact isolated_of_onlyAborted hi honly

/-- Two callers share a loader that resolves. -/
def sharedRun : List (Event Nat String) :=
  [.join false, .join false, .entry 0 (.abort 0), .entry 0 (.ends (.resolved 1)),
    .entry 0 .publish, .entry 0 (.deliver 1), .entry 0 (.finish 1)]

theorem coalesce_isolates_sharedRun :
    Always step Isolated State.empty sharedRun ∧ EachStep step StepSound State.empty sharedRun := by
  refine coalesce_isolates sharedRun ⟨?_, ?_, nofun, nofun, nofun, nofun, nofun, trivial⟩
  · intro _ i run hflight
    cases hflight
  · intro _ i run hflight hrun
    obtain rfl : 0 = i := Option.some.inj hflight
    obtain rfl := Option.some.inj hrun
    rfl

/-- The first caller aborts, and before its loader notices a second one
joins. -/
def lateJoinRun : List (Event Nat String) :=
  [.join false, .entry 0 (.abort 0), .join false, .entry 0 (.ends .abortError),
    .entry 0 .publish, .entry 0 (.deliver 1)]

theorem lateJoinRun_ends : lateJoinRun.foldl step State.empty =
    { runs :=
        [{ signalled := true, consumers := 1, ended := some ⟨.abortError, true⟩, published := true,
           callers :=
            [{ aborted := true, released := true, settled := some .abort, finished := false },
              { aborted := false, released := false, settled := some (.outcome .abortError),
                finished := false }] }]
      inFlight := none } := by
  decide

/-- **A caller can be aborted for another.** The second caller settles with
the abort of the first. -/
theorem not_coalesce_isolates :
    ¬ ∀ events : List (Event Nat String),
      Always step Isolated State.empty events ∧ EachStep step StepSound State.empty events := by
  intro h
  have hlast := (h lateJoinRun).1.last
  rw [lateJoinRun_ends] at hlast
  obtain ⟨e, he, -, hnot, -⟩ := hlast _ (List.mem_singleton_self _)
    { aborted := false, released := false, settled := some (.outcome .abortError),
      finished := false } (by decide) rfl (.outcome .abortError) rfl
  obtain rfl := Option.some.inj he
  cases hnot

end Coalesce

end SymphonyBoard
