import Mathlib.Data.Rat.Floor
import SymphonyBoard.Common.WorkerPool
import SymphonyBoard.Shared.Number
/-!
# Bounded-concurrency map

`mapWithConcurrency` of `src/lib/concurrency.ts`, worker by worker. The
workers share one cursor. A worker runs from one `await` to the next in one
turn; between turns the promises of the calls settle, in any order, and a
worker whose promise has settled may wait for its turn.

`mapWithConcurrency_map` says that every execution comes to an end and then
has the results of the calls in input order. Its workers are those of a
`Pool`, whose bound on the items in flight is theirs (`exists_pool`).
-/

namespace SymphonyBoard

/-- Where a worker is: about to run its loop, at its `await`, or done. -/
inductive MapWorker (T ε : Type)
  | ready
  | awaiting (item : T) (i : ℕ)
  | returned
  | rejected (error : ε)

/-- A worker that has more to do. -/
def MapWorker.unfinished {T ε : Type} : MapWorker T ε → Bool
  | .ready => true
  | .awaiting _ _ => true
  | _ => false

/-- A worker that has returned. -/
def MapWorker.isReturned {T ε : Type} : MapWorker T ε → Bool
  | .returned => true
  | _ => false

/-- The call of a map. What `fn` gives for an item is what its promise
settles with. -/
structure ConcurrentMap (T ε R : Type) where
  items : List T
  limit : JsNumber
  fn : T → ℕ → Except ε R

/-- The cursor, the results so far, the workers, the calls of `fn` in their
order and the calls whose promise has settled. -/
structure MapState (T ε R : Type) where
  next : ℕ
  results : List (Option R)
  workers : List (MapWorker T ε)
  calls : List (T × ℕ)
  settled : List ℕ

/-- What happens next: a worker takes its turn, or a call settles. -/
inductive MapEvent
  | turn (w : ℕ)
  | settle (i : ℕ)
deriving DecidableEq, Repr

/-- How many workers a limit asks for: one when it is not finite. -/
def requestedWorkers : JsNumber → ℤ
  | .finite value => ⌊value⌋
  | _ => 1

namespace ConcurrentMap

variable {T ε R : Type} (m : ConcurrentMap T ε R)

/-- The workers started: at least one, and no more than there are items. -/
def workerCount : ℕ := (max 1 (min (requestedWorkers m.limit) m.items.length)).toNat

/-- No items, and the map returns before it starts a worker. -/
def start : MapState T ε R :=
  { next := 0
    results := List.replicate m.items.length none
    workers := if m.items.isEmpty then [] else List.replicate m.workerCount .ready
    calls := []
    settled := [] }

/-- `const i = next++`, and the call for the item there. -/
def takeNext (s : MapState T ε R) (w : ℕ) : MapState T ε R :=
  match m.items[s.next]? with
  | none => { s with next := s.next + 1, workers := s.workers.set w .returned }
  | some item =>
    { s with
      next := s.next + 1
      calls := s.calls ++ [(item, s.next)]
      workers := s.workers.set w (.awaiting item s.next) }

/-- One event. -/
def step (s : MapState T ε R) : MapEvent → Option (MapState T ε R)
  | .turn w =>
    match s.workers[w]? with
    | some .ready => some (m.takeNext s w)
    | some (.awaiting item i) =>
      if i ∈ s.settled then
        match m.fn item i with
        | .ok r => some (m.takeNext { s with results := s.results.set i (some r) } w)
        | .error e => some { s with workers := s.workers.set w (.rejected e) }
      else none
    | _ => none
  | .settle i =>
    if i ∈ s.calls.map Prod.snd ∧ i ∉ s.settled then some { s with settled := s.settled ++ [i] }
    else none

/-- The events one after another. -/
def run : MapState T ε R → List MapEvent → Option (MapState T ε R)
  | s, [] => some s
  | s, e :: es => (m.step s e).bind fun s' => run s' es

end ConcurrentMap

/-- `Promise.all` of the workers. -/
def MapState.result {T ε R : Type} (s : MapState T ε R) : Option (List (Option R)) :=
  if s.workers.all MapWorker.isReturned then some s.results else none

/-- The calls whose promise is pending. -/
def MapState.inFlight {T ε R : Type} (s : MapState T ε R) : List ℕ :=
  (s.calls.map Prod.snd).filter (· ∉ s.settled)

namespace ConcurrentMap

variable {T ε R : Type} {m : ConcurrentMap T ε R} {s s' : MapState T ε R} {e : MapEvent}
  {es : List MapEvent}

/-! ## Steps -/

/-- **What an event does.** A worker takes an item, finds none, or rejects;
or a promise settles. A worker that goes on stores its result first. -/
theorem step_cases (h : m.step s e = some s') :
    (∃ w results, e = .turn w ∧ w < s.workers.length ∧
      (s.workers[w]? = some .ready ∧ results = s.results ∨
        ∃ item i r, s.workers[w]? = some (.awaiting item i) ∧ i ∈ s.settled ∧
          m.fn item i = .ok r ∧ results = s.results.set i (some r)) ∧
      s' = m.takeNext { s with results } w) ∨
    (∃ w item i error, e = .turn w ∧ w < s.workers.length ∧
      s.workers[w]? = some (.awaiting item i) ∧ i ∈ s.settled ∧ m.fn item i = .error error ∧
      s' = { s with workers := s.workers.set w (.rejected error) }) ∨
    (∃ i, e = .settle i ∧ i ∈ s.calls.map Prod.snd ∧ i ∉ s.settled ∧
      s' = { s with settled := s.settled ++ [i] }) := by
  cases e with
  | settle i =>
    simp only [step] at h
    by_cases hi : i ∈ s.calls.map Prod.snd ∧ i ∉ s.settled
    · rw [if_pos hi] at h
      exact .inr (.inr ⟨i, rfl, hi.1, hi.2, (Option.some.inj h).symm⟩)
    · -- no call of this number is out
      rw [if_neg hi] at h
      cases h
  | turn w =>
    simp only [step] at h
    have hlt : ∀ worker, s.workers[w]? = some worker → w < s.workers.length :=
      fun worker hw => (List.getElem?_eq_some_iff.mp hw).1
    cases hw : s.workers[w]? with
    | none =>
      rw [hw] at h
      cases h
    | some worker =>
      have hlt := hlt worker hw
      cases worker with
      | ready =>
        rw [hw] at h
        exact .inl ⟨w, s.results, rfl, hlt, .inl ⟨hw, rfl⟩, (Option.some.inj h).symm⟩
      | awaiting item i =>
        rw [hw] at h
        simp only at h
        by_cases hi : i ∈ s.settled
        · rw [if_pos hi] at h
          cases hfn : m.fn item i with
          | ok r =>
            rw [hfn] at h
            exact .inl ⟨w, s.results.set i (some r), rfl, hlt,
              .inr ⟨item, i, r, hw, hi, hfn, rfl⟩, (Option.some.inj h).symm⟩
          | error error =>
            rw [hfn] at h
            exact .inr (.inl ⟨w, item, i, error, rfl, hlt, hw, hi, hfn,
              (Option.some.inj h).symm⟩)
        · rw [if_neg hi] at h
          cases h
      | returned =>
        rw [hw] at h
        cases h
      | rejected error =>
        rw [hw] at h
        cases h

/-- What a worker that goes on leaves: a call for the item at the cursor, or
the end of the worker. -/
theorem takeNext_cases (s : MapState T ε R) (w : ℕ) :
    (∃ item, m.items[s.next]? = some item ∧
      m.takeNext s w =
        { s with
          next := s.next + 1
          calls := s.calls ++ [(item, s.next)]
          workers := s.workers.set w (.awaiting item s.next) }) ∨
    (m.items[s.next]? = none ∧
      m.takeNext s w = { s with next := s.next + 1, workers := s.workers.set w .returned }) := by
  unfold takeNext
  cases hitem : m.items[s.next]? with
  | none => exact .inr ⟨rfl, rfl⟩
  | some item => exact .inl ⟨item, rfl, rfl⟩

/-! ## The invariant -/

/-- A call's result is on its way or has come. -/
def Accounted (m : ConcurrentMap T ε R) (s : MapState T ε R) (c : T × ℕ) : Prop :=
  .awaiting c.1 c.2 ∈ s.workers ∨
    (c.2 ∈ s.settled ∧ ∃ r, m.fn c.1 c.2 = .ok r ∧ s.results[c.2]? = some (some r)) ∨
    (c.2 ∈ s.settled ∧ ∃ error, m.fn c.1 c.2 = .error error ∧ .rejected error ∈ s.workers)

/-- **What holds in every state**: the calls are the items up to the cursor,
in order; each is awaited, stored or rejected; and a worker has returned only
when the items had run out. -/
structure Inv (m : ConcurrentMap T ε R) (s : MapState T ε R) : Prop where
  calls : s.calls = m.items.zipIdx.take s.next
  settled : s.settled.Nodup
  called : ∀ i ∈ s.settled, i ∈ s.calls.map Prod.snd
  results : s.results.length = m.items.length
  accounted : ∀ c ∈ s.calls, m.Accounted s c
  awaited : ∀ item i, .awaiting item i ∈ s.workers → (item, i) ∈ s.calls
  returned : .returned ∈ s.workers → m.items.length ≤ s.next
  rejected : ∀ error, .rejected error ∈ s.workers → ∃ c ∈ s.calls, m.fn c.1 c.2 = .error error
  workers : s.workers.length = if m.items.isEmpty then 0 else m.workerCount

theorem map_snd_calls (h : m.Inv s) :
    s.calls.map Prod.snd = List.range (min s.next m.items.length) := by
  rw [h.calls, List.map_take, List.zipIdx_map_snd, ← List.range_eq_range', List.take_range]

theorem nodup_calls (h : m.Inv s) : (s.calls.map Prod.snd).Nodup := by
  rw [map_snd_calls h]
  exact List.nodup_range

theorem mem_zipIdx_of_call (h : m.Inv s) {c : T × ℕ} (hc : c ∈ s.calls) :
    c ∈ m.items.zipIdx := by
  rw [h.calls] at hc
  exact List.mem_of_mem_take hc

/-- Two calls of one position are the same. -/
theorem call_unique (h : m.Inv s) {c c' : T × ℕ} (hc : c ∈ s.calls) (hc' : c' ∈ s.calls)
    (hi : c.2 = c'.2) : c = c' :=
  List.inj_on_of_nodup_map (nodup_calls h) hc hc' hi

theorem lt_of_call (h : m.Inv s) {c : T × ℕ} (hc : c ∈ s.calls) : c.2 < m.items.length := by
  have hmem : c.2 ∈ s.calls.map Prod.snd := List.mem_map_of_mem hc
  rw [map_snd_calls h, List.mem_range] at hmem
  omega

theorem mem_set_of_ne {α : Type} {l : List α} {x y z : α} {w : ℕ} (hx : x ∈ l) (hw : l[w]? = some z)
    (hne : x ≠ z) : x ∈ l.set w y := by
  obtain ⟨i, hi, rfl⟩ := List.getElem_of_mem hx
  have hiw : w ≠ i := by
    rintro rfl
    rw [List.getElem?_eq_getElem hi] at hw
    exact hne (Option.some.inj hw)
  have hget : (l.set w y)[i]? = some l[i] := by
    rw [List.getElem?_set_ne hiw, List.getElem?_eq_getElem hi]
  exact List.mem_of_getElem? hget

theorem inv_start : m.Inv m.start where
  calls := rfl
  settled := List.nodup_nil
  called := fun i hi => by cases hi
  results := List.length_replicate
  accounted := fun c hc => by cases hc
  awaited := fun item i h => by
    unfold start at h
    simp only at h
    split at h
    · cases h
    · cases List.eq_of_mem_replicate h
  returned := fun h => by
    unfold start at h
    simp only at h
    split at h
    · cases h
    · cases List.eq_of_mem_replicate h
  rejected := fun error h => by
    unfold start at h
    simp only at h
    split at h
    · cases h
    · cases List.eq_of_mem_replicate h
  workers := by
    unfold start
    simp only
    split
    · rfl
    · exact List.length_replicate

theorem zipIdx_take_succ {l : List T} {k : ℕ} {x : T} (hx : l[k]? = some x) :
    l.zipIdx.take (k + 1) = l.zipIdx.take k ++ [(x, k)] := by
  have hget : l.zipIdx[k]? = some (x, k) := by
    rw [List.getElem?_zipIdx, hx]
    simp
  rw [List.take_add_one, hget]
  rfl

theorem zipIdx_take_none {l : List T} {k : ℕ} (hx : l[k]? = none) :
    l.zipIdx.take (k + 1) = l.zipIdx.take k := by
  have hlen := List.getElem?_eq_none_iff.mp hx
  rw [List.take_of_length_le (by rw [List.length_zipIdx]; omega),
    List.take_of_length_le (by rw [List.length_zipIdx]; omega)]

/-- **A worker that goes on** stores its result before it gives up its item,
so every call stays accounted for. -/
theorem inv_takeNext (h : m.Inv s) {w : ℕ} {results : List (Option R)}
    (hw : w < s.workers.length)
    (hstored : s.workers[w]? = some .ready ∧ results = s.results ∨
      ∃ item i r, s.workers[w]? = some (.awaiting item i) ∧ i ∈ s.settled ∧
        m.fn item i = .ok r ∧ results = s.results.set i (some r)) :
    m.Inv (m.takeNext { s with results } w) := by
  have hlength : results.length = m.items.length := by
    rcases hstored with ⟨-, rfl⟩ | ⟨item, i, r, -, -, -, rfl⟩
    · exact h.results
    · rw [List.length_set, h.results]
  -- What the calls so far are accounted by once the worker is at `worker`.
  have hkeep : ∀ (worker : MapWorker T ε) (c : T × ℕ), c ∈ s.calls →
      .awaiting c.1 c.2 ∈ s.workers.set w worker ∨
        (c.2 ∈ s.settled ∧ ∃ r, m.fn c.1 c.2 = .ok r ∧ results[c.2]? = some (some r)) ∨
        (c.2 ∈ s.settled ∧ ∃ error, m.fn c.1 c.2 = .error error ∧
          .rejected error ∈ s.workers.set w worker) := by
    intro worker c hc
    rcases hstored with ⟨hready, rfl⟩ | ⟨item, i, r, hawaiting, hi, hfn, rfl⟩
    · rcases h.accounted c hc with hin | hin | ⟨hin, error, herror, hmem⟩
      · exact .inl (mem_set_of_ne hin hready (by simp))
      · exact .inr (.inl hin)
      · exact .inr (.inr ⟨hin, error, herror, mem_set_of_ne hmem hready (by simp)⟩)
    · have hitem : (item, i) ∈ s.calls := h.awaited item i (List.mem_of_getElem? hawaiting)
      by_cases hci : c.2 = i
      · obtain rfl := call_unique h hc hitem hci
        have hlt := lt_of_call h hc
        refine .inr (.inl ⟨hi, r, hfn, ?_⟩)
        rw [List.getElem?_set_self (by rw [h.results]; exact hlt)]
      · rcases h.accounted c hc with hin | ⟨hin, r', hr', hget⟩ | ⟨hin, error, herror, hmem⟩
        · refine .inl (mem_set_of_ne hin hawaiting fun heq => hci ?_)
          exact (MapWorker.awaiting.inj heq).2
        · refine .inr (.inl ⟨hin, r', hr', ?_⟩)
          rw [List.getElem?_set_ne fun hic => hci hic.symm]
          exact hget
        · exact .inr (.inr ⟨hin, error, herror, mem_set_of_ne hmem hawaiting (by simp)⟩)
  rcases takeNext_cases (m := m) { s with results } w with ⟨item, hitem, heq⟩ | ⟨hnone, heq⟩
  · simp only at hitem
    rw [heq]
    refine ⟨?_, h.settled, fun i hi => ?_, hlength, fun c hc => ?_, fun item' i hmem => ?_,
      fun hmem => ?_, fun error hmem => ?_, ?_⟩
    · rw [zipIdx_take_succ hitem, ← h.calls]
    · rw [List.map_append]
      exact List.mem_append_left _ (h.called i hi)
    · rcases List.mem_append.mp hc with hc | hc
      · exact hkeep _ c hc
      · obtain rfl := List.mem_singleton.mp hc
        exact .inl (List.mem_set hw _)
    · rcases List.mem_or_eq_of_mem_set hmem with hmem | hmem
      · exact List.mem_append_left _ (h.awaited item' i hmem)
      · obtain ⟨rfl, rfl⟩ := MapWorker.awaiting.inj hmem
        exact List.mem_append_right _ List.mem_cons_self
    · rcases List.mem_or_eq_of_mem_set hmem with hmem | hmem
      · exact Nat.le_succ_of_le (h.returned hmem)
      · cases hmem
    · rcases List.mem_or_eq_of_mem_set hmem with hmem | hmem
      · obtain ⟨c, hc, herror⟩ := h.rejected error hmem
        exact ⟨c, List.mem_append_left _ hc, herror⟩
      · cases hmem
    · rw [List.length_set]
      exact h.workers
  · simp only at hnone
    rw [heq]
    refine ⟨?_, h.settled, h.called, hlength, fun c hc => hkeep _ c hc, fun item' i hmem => ?_,
      fun _ => ?_, fun error hmem => ?_, ?_⟩
    · rw [zipIdx_take_none hnone, ← h.calls]
    · rcases List.mem_or_eq_of_mem_set hmem with hmem | hmem
      · exact h.awaited item' i hmem
      · cases hmem
    · exact Nat.le_succ_of_le (List.getElem?_eq_none_iff.mp hnone)
    · rcases List.mem_or_eq_of_mem_set hmem with hmem | hmem
      · exact h.rejected error hmem
      · cases hmem
    · rw [List.length_set]
      exact h.workers

theorem inv_step (h : m.Inv s) (hstep : m.step s e = some s') : m.Inv s' := by
  rcases step_cases hstep with ⟨w, results, -, hw, hstored, rfl⟩ |
    ⟨w, item, i, error, -, hw, hawaiting, hi, hfn, rfl⟩ | ⟨i, -, hcall, hnew, rfl⟩
  · exact inv_takeNext h hw hstored
  · have hitem : (item, i) ∈ s.calls := h.awaited item i (List.mem_of_getElem? hawaiting)
    refine ⟨h.calls, h.settled, h.called, h.results, fun c hc => ?_, fun item' j hmem => ?_,
      fun hmem => ?_, fun error' hmem => ?_, ?_⟩
    · rcases h.accounted c hc with hin | hin | ⟨hin, error', herror, hmem⟩
      · by_cases hci : c.2 = i
        · obtain rfl := call_unique h hc hitem hci
          exact .inr (.inr ⟨hi, error, hfn, List.mem_set hw _⟩)
        · refine .inl (mem_set_of_ne hin hawaiting fun heq => hci ?_)
          exact (MapWorker.awaiting.inj heq).2
      · exact .inr (.inl hin)
      · exact .inr (.inr ⟨hin, error', herror, mem_set_of_ne hmem hawaiting (by simp)⟩)
    · rcases List.mem_or_eq_of_mem_set hmem with hmem | hmem
      · exact h.awaited item' j hmem
      · cases hmem
    · rcases List.mem_or_eq_of_mem_set hmem with hmem | hmem
      · exact h.returned hmem
      · cases hmem
    · rcases List.mem_or_eq_of_mem_set hmem with hmem | hmem
      · exact h.rejected error' hmem
      · obtain rfl := MapWorker.rejected.inj hmem
        exact ⟨(item, i), hitem, hfn⟩
    · rw [List.length_set]
      exact h.workers
  · refine ⟨h.calls, ?_, fun j hj => ?_, h.results, fun c hc => ?_, h.awaited, h.returned,
      h.rejected, h.workers⟩
    · exact (List.perm_append_singleton i s.settled).nodup_iff.mpr
        (List.nodup_cons.mpr ⟨hnew, h.settled⟩)
    · rcases List.mem_append.mp hj with hj | hj
      · exact h.called j hj
      · rw [List.mem_singleton.mp hj]
        exact hcall
    · rcases h.accounted c hc with hin | ⟨hin, hrest⟩ | ⟨hin, hrest⟩
      · exact .inl hin
      · exact .inr (.inl ⟨List.mem_append_left _ hin, hrest⟩)
      · exact .inr (.inr ⟨List.mem_append_left _ hin, hrest⟩)

/-- What holds at a state and is kept by each event holds after every
execution. -/
theorem run_induction (inv : MapState T ε R → Prop) (hstart : inv s)
    (hstep : ∀ s s' e, inv s → m.step s e = some s' → inv s') (hrun : m.run s es = some s') :
    inv s' := by
  induction es generalizing s with
  | nil => exact Option.some.inj hrun ▸ hstart
  | cons e es ih =>
    obtain ⟨q, hq, hrest⟩ := Option.bind_eq_some_iff.mp hrun
    exact ih (hstep s q e hstart hq) hrest

theorem inv_run (hrun : m.run m.start es = some s) : m.Inv s :=
  run_induction m.Inv inv_start (fun _ _ _ h hstep => inv_step h hstep) hrun

/-! ## The pool of its workers -/

/-- An item waits from its call until its promise settles. -/
def task (m : ConcurrentMap T ε R) : PoolTask Unit (Option (Except ε R)) where
  onTake := fun _ _ => none
  onSettle := fun i shared => (shared, m.items[i]?.map fun item => m.fn item i)

/-- The call as the pool of the library. -/
def poolOf (m : ConcurrentMap T ε R) (s : MapState T ε R) : Pool Unit (Option (Except ε R)) where
  next := min s.next m.items.length
  inFlight := s.inFlight
  ended := s.settled.map fun i => (i, m.items[i]?.map fun item => m.fn item i)
  shared := ()

theorem nodup_inFlight (h : m.Inv s) : s.inFlight.Nodup := (nodup_calls h).filter _

/-- **A worker at its turn awaits no pending promise**, so one more call
fits. -/
theorem inFlight_lt (h : m.Inv s) {w : ℕ} {worker : MapWorker T ε}
    (hw : s.workers[w]? = some worker)
    (hturn : ∀ item i, worker = .awaiting item i → i ∈ s.settled) :
    s.inFlight.length < s.workers.length := by
  obtain ⟨hlt, -⟩ := List.getElem?_eq_some_iff.mp hw
  let pending := s.calls.filter fun c => c.2 ∉ s.settled
  have hlength : s.inFlight.length =
      (pending.map fun c => MapWorker.awaiting (ε := ε) c.1 c.2).length := by
    rw [List.length_map, MapState.inFlight, List.filter_map, List.length_map]
    rfl
  have hnodup : (pending.map fun c => MapWorker.awaiting (ε := ε) c.1 c.2).Nodup := by
    refine List.Nodup.map (fun c c' heq => ?_) ((List.Nodup.of_map _ (nodup_calls h)).filter _)
    obtain ⟨hitem, hi⟩ := MapWorker.awaiting.inj heq
    exact Prod.ext hitem hi
  have hsubset : (pending.map fun c => MapWorker.awaiting (ε := ε) c.1 c.2) ⊆
      s.workers.eraseIdx w := by
    intro x hx
    obtain ⟨c, hc, rfl⟩ := List.mem_map.mp hx
    obtain ⟨hcall, hpending⟩ := List.mem_filter.mp hc
    have hpending : c.2 ∉ s.settled := by simpa using hpending
    rcases h.accounted c hcall with hin | hin | hin
    · obtain ⟨i, hi, hget⟩ := List.getElem_of_mem hin
      refine List.mem_eraseIdx_iff_getElem?.mpr ⟨i, ?_, ?_⟩
      · rintro rfl
        rw [List.getElem?_eq_getElem hi, hget] at hw
        exact hpending (hturn c.1 c.2 (Option.some.inj hw).symm)
      · rw [List.getElem?_eq_getElem hi, hget]
    · exact absurd hin.1 hpending
    · exact absurd hin.1 hpending
  have hle := (List.subperm_of_subset hnodup hsubset).length_le
  rw [List.length_eraseIdx_of_lt hlt] at hle
  omega

/-- An event of the workers is an event of the pool, or none. -/
theorem pool_step (h : m.Inv s) (hstep : m.step s e = some s') :
    m.poolOf s' = m.poolOf s ∨
      ∃ e', Pool.step m.task m.items.length m.workerCount (m.poolOf s) e' = some (m.poolOf s') := by
  rcases step_cases hstep with ⟨w, results, -, hw, hstored, rfl⟩ |
    ⟨w, item, i, error, -, hw, hawaiting, hi, hfn, rfl⟩ | ⟨i, -, hcall, hnew, rfl⟩
  · -- a turn takes an item, or finds none and the pool is as it was
    rcases takeNext_cases (m := m) { s with results } w with ⟨item, hitem, heq⟩ | ⟨hnone, heq⟩
    · refine .inr ⟨.take, ?_⟩
      simp only at hitem
      have hnext := (List.getElem?_eq_some_iff.mp hitem).1
      have hworkers : s.workers.length = m.workerCount := by
        rw [h.workers, if_neg]
        rw [List.isEmpty_iff]
        intro hnil
        rw [hnil] at hnext
        exact absurd hnext (Nat.not_lt_zero _)
      have hroom : s.inFlight.length < m.workerCount := by
        rw [← hworkers]
        rcases hstored with ⟨hready, -⟩ | ⟨item', i, r, hawaiting, hi, -, -⟩
        · exact inFlight_lt h hready fun item i hc => by cases hc
        · refine inFlight_lt h hawaiting fun item'' i' hc => ?_
          obtain ⟨-, rfl⟩ := MapWorker.awaiting.inj hc
          exact hi
      have hfresh : s.next ∉ s.settled := by
        intro hin
        have hmem := h.called _ hin
        rw [map_snd_calls h, List.mem_range] at hmem
        omega
      have hinFlight : MapState.inFlight (m.takeNext { s with results } w) =
          s.inFlight ++ [s.next] := by
        rw [heq]
        simp [MapState.inFlight, List.filter_append, hfresh]
      simp only [Pool.step]
      rw [if_pos ⟨by simp only [poolOf]; omega, hroom⟩]
      simp only [task, poolOf, hinFlight, Option.some.injEq, Pool.mk.injEq, and_true]
      rw [heq]
      have hmin : min s.next m.items.length = s.next := Nat.min_eq_left (Nat.le_of_lt hnext)
      refine ⟨?_, ?_, rfl⟩
      · simp only
        omega
      · rw [hmin]
    · refine .inl ?_
      have hle := List.getElem?_eq_none_iff.mp hnone
      rw [heq]
      simp only [poolOf, MapState.inFlight, Pool.mk.injEq, and_true]
      simp only at hle
      omega
  · -- a worker stops at an error, which the pool does not see
    exact .inl rfl
  · refine .inr ⟨.settle i, ?_⟩
    have hin : i ∈ s.inFlight := List.mem_filter.mpr ⟨hcall, by simpa using hnew⟩
    have herase : s.inFlight.erase i =
        MapState.inFlight { s with settled := s.settled ++ [i] } := by
      rw [(nodup_inFlight h).erase_eq_filter]
      unfold MapState.inFlight
      rw [List.filter_filter]
      refine List.filter_congr fun j _ => ?_
      by_cases hj : j = i <;> simp [hj]
    simp only [Pool.step]
    rw [if_pos (show i ∈ (m.poolOf s).inFlight from hin)]
    simp only [task, poolOf, herase, List.map_append, List.map_singleton]

/-- **Every execution is one of a pool** of its workers. -/
theorem exists_pool (hrun : m.run m.start es = some s) :
    ∃ es', Pool.run m.task m.items.length m.workerCount (Pool.start ()) es' =
      some (m.poolOf s) := by
  have hboth : m.Inv s ∧ ∃ es', Pool.run m.task m.items.length m.workerCount (Pool.start ()) es' =
      some (m.poolOf s) := by
    refine run_induction (fun s => m.Inv s ∧ ∃ es', Pool.run m.task m.items.length m.workerCount
      (Pool.start ()) es' = some (m.poolOf s)) ⟨inv_start, [], ?_⟩ ?_ hrun
    · simp [Pool.run, Pool.start, poolOf, start, MapState.inFlight]
    · rintro s s' e ⟨h, es', hpool⟩ hstep
      refine ⟨inv_step h hstep, ?_⟩
      rcases pool_step h hstep with heq | ⟨e', he'⟩
      · exact ⟨es', heq ▸ hpool⟩
      · exact ⟨es' ++ [e'], Pool.run_concat hpool he'⟩
  exact hboth.2

/-! ## Every execution ends -/

/-- How many events can still come: a promise to settle and a call to start
for each item, and the end of each worker. -/
def remaining (m : ConcurrentMap T ε R) (s : MapState T ε R) : ℕ :=
  (m.items.length - s.settled.length) + (m.items.length - s.calls.length) +
    s.workers.countP MapWorker.unfinished

theorem countP_finish {w : ℕ} {worker worker' : MapWorker T ε} {l : List (MapWorker T ε)}
    (hw : l[w]? = some worker) (hworker : worker.unfinished = true)
    (hworker' : worker'.unfinished = false) :
    (l.set w worker').countP MapWorker.unfinished < l.countP MapWorker.unfinished := by
  obtain ⟨hlt, hget⟩ := List.getElem?_eq_some_iff.mp hw
  have hpos : 0 < l.countP MapWorker.unfinished :=
    List.countP_pos_iff.mpr ⟨worker, List.mem_of_getElem? hw, hworker⟩
  rw [List.countP_set hlt, hget, hworker, hworker']
  simp only [if_true, Bool.false_eq_true, if_false]
  omega

theorem countP_goOn {w : ℕ} {worker worker' : MapWorker T ε} {l : List (MapWorker T ε)}
    (hw : l[w]? = some worker) (hworker : worker.unfinished = true)
    (hworker' : worker'.unfinished = true) :
    (l.set w worker').countP MapWorker.unfinished = l.countP MapWorker.unfinished := by
  obtain ⟨hlt, hget⟩ := List.getElem?_eq_some_iff.mp hw
  have hpos : 0 < l.countP MapWorker.unfinished :=
    List.countP_pos_iff.mpr ⟨worker, List.mem_of_getElem? hw, hworker⟩
  rw [List.countP_set hlt, hget, hworker, hworker']
  simp only [if_true]
  omega

theorem remaining_step (h : m.Inv s) (hstep : m.step s e = some s') :
    m.remaining s' < m.remaining s := by
  rcases step_cases hstep with ⟨w, results, -, hw, hstored, rfl⟩ |
    ⟨w, item, i, error, -, hw, hawaiting, hi, hfn, rfl⟩ | ⟨i, -, hcall, hnew, rfl⟩
  · obtain ⟨worker, hworker, hunfinished⟩ : ∃ worker, s.workers[w]? = some worker ∧
        worker.unfinished = true := by
      rcases hstored with ⟨hready, -⟩ | ⟨item, i, r, hawaiting, -, -, -⟩
      · exact ⟨_, hready, rfl⟩
      · exact ⟨_, hawaiting, rfl⟩
    -- a new call lowers what is left to take, a return the workers left
    rcases takeNext_cases (m := m) { s with results } w with ⟨item, hitem, heq⟩ | ⟨hnone, heq⟩
    · simp only at hitem
      have hnext := (List.getElem?_eq_some_iff.mp hitem).1
      have hcalls : s.calls.length = s.next := by
        rw [h.calls, List.length_take, List.length_zipIdx]
        omega
      have hcount := countP_goOn hworker hunfinished
        (show (MapWorker.awaiting item s.next : MapWorker T ε).unfinished = true from rfl)
      rw [heq]
      simp only [remaining, List.length_append, List.length_singleton, hcount]
      omega
    · have hcount := countP_finish hworker hunfinished
        (show (MapWorker.returned : MapWorker T ε).unfinished = false from rfl)
      rw [heq]
      simp only [remaining]
      omega
  · have hcount := countP_finish hawaiting rfl
      (show (MapWorker.rejected error : MapWorker T ε).unfinished = false from rfl)
    simp only [remaining]
    omega
  · -- no call settles twice, so they cannot outnumber the items
    have hsub : (s.settled ++ [i]) ⊆ List.range m.items.length := by
      intro j hj
      have hmem : j ∈ s.calls.map Prod.snd := by
        rcases List.mem_append.mp hj with hj | hj
        · exact h.called j hj
        · rw [List.mem_singleton.mp hj]
          exact hcall
      rw [map_snd_calls h, List.mem_range] at hmem
      exact List.mem_range.mpr (by omega)
    have hnodup : (s.settled ++ [i]).Nodup :=
      (List.perm_append_singleton i s.settled).nodup_iff.mpr
        (List.nodup_cons.mpr ⟨hnew, h.settled⟩)
    have hle := (List.subperm_of_subset hnodup hsub).length_le
    rw [List.length_append, List.length_singleton, List.length_range] at hle
    simp only [remaining, List.length_append, List.length_singleton]
    omega

theorem length_le_remaining (h : m.Inv s) (hrun : m.run s es = some s') :
    es.length ≤ m.remaining s := by
  induction es generalizing s with
  | nil => exact Nat.zero_le _
  | cons e es ih =>
    obtain ⟨q, hq, hrest⟩ := Option.bind_eq_some_iff.mp hrun
    have hless := remaining_step h hq
    have hle := ih (inv_step h hq) hrest
    rw [List.length_cons]
    omega

theorem workerCount_le (m : ConcurrentMap T ε R) (hne : m.items ≠ []) :
    m.workerCount ≤ m.items.length := by
  have hpos := List.length_pos_iff.mpr hne
  unfold workerCount
  omega

theorem remaining_start (m : ConcurrentMap T ε R) : m.remaining m.start ≤ 3 * m.items.length := by
  unfold remaining start
  simp only [List.length_nil, Nat.sub_zero]
  split
  · simp only [List.countP_nil]
    omega
  · next hne =>
    have hcount := List.countP_le_length (p := MapWorker.unfinished)
      (l := List.replicate m.workerCount (MapWorker.ready : MapWorker T ε))
    rw [List.length_replicate] at hcount
    have hle := workerCount_le m fun hnil => hne (by rw [hnil]; rfl)
    omega

/-! ## The results -/

/-- The results of the calls, in input order. -/
def sequential (m : ConcurrentMap T ε R) : List (Option R) :=
  m.items.zipIdx.map fun c => (m.fn c.1 c.2).toOption

/-- **When every worker has returned**, every item was called and the results
are those of the calls. -/
theorem result_eq (h : m.Inv s) {rs : List (Option R)} (hres : s.result = some rs) :
    s.calls = m.items.zipIdx ∧ rs = m.sequential := by
  unfold MapState.result at hres
  split at hres
  · next hall =>
    obtain rfl := Option.some.inj hres
    have hreturned : ∀ worker ∈ s.workers, worker = .returned := by
      intro worker hworker
      have hw := List.all_eq_true.mp hall worker hworker
      cases worker <;> first | rfl | cases hw
    have hnext : m.items.length ≤ s.next := by
      cases hworkers : s.workers with
      | nil =>
        have hlen := h.workers
        rw [hworkers] at hlen
        split at hlen
        · next hnil =>
          rw [List.isEmpty_iff.mp hnil]
          exact Nat.zero_le _
        · unfold workerCount at hlen
          simp only [List.length_nil] at hlen
          omega
      | cons worker rest =>
        have hmem : worker ∈ s.workers := hworkers ▸ List.mem_cons_self
        exact h.returned (hreturned worker hmem ▸ hmem)
    have hcalls : s.calls = m.items.zipIdx := by
      rw [h.calls, List.take_of_length_le (by rw [List.length_zipIdx]; exact hnext)]
    refine ⟨hcalls, List.ext_getElem? fun i => ?_⟩
    by_cases hi : i < m.items.length
    · have hcall : (m.items[i], i) ∈ s.calls := by
        rw [hcalls]
        refine List.mk_mem_zipIdx_iff_getElem?.mpr ?_
        rw [List.getElem?_eq_getElem hi]
      have hget : m.items.zipIdx[i]? = some (m.items[i], i) := by
        rw [List.getElem?_zipIdx, List.getElem?_eq_getElem hi]
        simp
      rw [sequential, List.getElem?_map, hget, Option.map_some]
      rcases h.accounted _ hcall with hin | ⟨-, r, hr, hstored⟩ | ⟨-, error, -, hin⟩
      · cases hreturned _ hin
      · rw [hstored, hr]
        rfl
      · cases hreturned _ hin
    · have hlen : m.sequential.length = m.items.length := by
        rw [sequential, List.length_map, List.length_zipIdx]
      rw [List.getElem?_eq_none (by rw [h.results]; omega),
        List.getElem?_eq_none (by rw [hlen]; omega)]
  · cases hres

/-- **An execution that cannot go on has its result**, when no call rejects. -/
theorem result_of_stuck (h : m.Inv s)
    (hok : ∀ c ∈ m.items.zipIdx, ∃ r, m.fn c.1 c.2 = .ok r) (hstuck : ∀ e, m.step s e = none) :
    ∃ rs, s.result = some rs := by
  have hall : s.workers.all MapWorker.isReturned = true := by
    rw [List.all_eq_true]
    intro worker hworker
    obtain ⟨w, hw, hget⟩ := List.getElem_of_mem hworker
    have hw' : s.workers[w]? = some worker := by rw [List.getElem?_eq_getElem hw, hget]
    cases worker with
    | ready =>
      have hturn := hstuck (.turn w)
      simp only [step, hw'] at hturn
      cases hturn
    | awaiting item i =>
      have hcall := h.awaited item i hworker
      by_cases hi : i ∈ s.settled
      · obtain ⟨r, hr⟩ := hok _ (mem_zipIdx_of_call h hcall)
        have hturn := hstuck (.turn w)
        simp only at hr
        simp only [step, hw', if_pos hi, hr] at hturn
        cases hturn
      · have hsettle := hstuck (.settle i)
        have hin : i ∈ s.calls.map Prod.snd := List.mem_map.mpr ⟨(item, i), hcall, rfl⟩
        simp only [step] at hsettle
        rw [if_pos ⟨hin, hi⟩] at hsettle
        cases hsettle
    | returned => rfl
    | rejected error =>
      obtain ⟨c, hc, herror⟩ := h.rejected error hworker
      obtain ⟨r, hr⟩ := hok c (mem_zipIdx_of_call h hc)
      rw [herror] at hr
      cases hr
  exact ⟨s.results, by rw [MapState.result, if_pos hall]⟩

/-! ## In flight -/

/-- No more calls than the limit; one where the limit is below 1 or is not
finite. -/
def WithinLimit (limit : JsNumber) (k : ℕ) : Prop :=
  match limit with
  | .finite value => (k : ℚ) ≤ max 1 value
  | _ => k ≤ 1

theorem withinLimit_workerCount (m : ConcurrentMap T ε R) {k : ℕ} (hk : k ≤ m.workerCount) :
    WithinLimit m.limit k := by
  unfold workerCount requestedWorkers at hk
  unfold WithinLimit
  cases hlimit : m.limit with
  | finite value =>
    rw [hlimit] at hk
    simp only at hk ⊢
    have hz : (k : ℤ) ≤ max 1 ⌊value⌋ := by omega
    have hq : ((k : ℤ) : ℚ) ≤ ((max 1 ⌊value⌋ : ℤ) : ℚ) := Int.cast_le.mpr hz
    rw [Int.cast_natCast, Int.cast_max, Int.cast_one] at hq
    exact hq.trans (max_le_max le_rfl (Int.floor_le value))
  | infinite negative =>
    rw [hlimit] at hk
    simp only at hk ⊢
    omega
  | nan =>
    rw [hlimit] at hk
    simp only at hk ⊢
    omega

/-- **What a concurrent map owes its caller** after some events. -/
structure SequentialMap (m : ConcurrentMap T ε R) (es : List MapEvent) (s : MapState T ε R) :
    Prop where
  once : ∃ k, s.calls = m.items.zipIdx.take k
  bounded : WithinLimit m.limit s.inFlight.length
  finite : es.length ≤ 3 * m.items.length
  result : ∀ rs, s.result = some rs → s.calls = m.items.zipIdx ∧ rs = m.sequential
  complete : (∀ c ∈ m.items.zipIdx, ∃ r, m.fn c.1 c.2 = .ok r) → (∀ e, m.step s e = none) →
    s.result = some m.sequential

/-- **A concurrent map is the sequential map.** In every execution the items
are called in order and at most once, within the limit; no execution runs on,
and one that cannot go on, with no call rejected, has called every item once
and has the calls' results in input order. -/
theorem mapWithConcurrency_map (m : ConcurrentMap T ε R) (es : List MapEvent)
    (s : MapState T ε R) (hrun : m.run m.start es = some s) : m.SequentialMap es s := by
  have hinv := inv_run hrun
  obtain ⟨es', hpool⟩ := exists_pool hrun
  refine ⟨⟨s.next, hinv.calls⟩, withinLimit_workerCount m (Pool.inFlight_le hpool), ?_,
    fun rs hres => result_eq hinv hres, fun hok hstuck => ?_⟩
  · exact (length_le_remaining inv_start hrun).trans (remaining_start m)
  · obtain ⟨rs, hres⟩ := result_of_stuck hinv hok hstuck
    rw [hres, (result_eq hinv hres).2]

/-! ## Two items -/

/-- A map over two items by two workers. -/
def twoItems : ConcurrentMap String String ℕ where
  items := ["a", "b"]
  limit := .finite 2
  fn := fun item i => .ok (item.length + i)

/-- Both are called, the second one's promise settles first. -/
theorem mapWithConcurrency_map_twoItems :
    twoItems.SequentialMap [.turn 0, .turn 1, .settle 1, .turn 1, .settle 0, .turn 0]
      { next := 4, results := [some 1, some 2], workers := [.returned, .returned]
        calls := [("a", 0), ("b", 1)], settled := [1, 0] } :=
  mapWithConcurrency_map twoItems _ _ rfl

/-- A limit of 0 has one call in flight. -/
theorem limitZero_inFlight :
    ∃ s, { twoItems with limit := .finite 0 }.run
        (start { twoItems with limit := .finite 0 }) [.turn 0] = some s ∧
      ¬(s.inFlight.length : ℚ) ≤ 0 := by
  refine ⟨_, rfl, ?_⟩
  norm_num [MapState.inFlight, takeNext, twoItems, start]

end ConcurrentMap

end SymphonyBoard
