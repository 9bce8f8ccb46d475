import Mathlib.Data.Int.Notation
import SymphonyBoard.Common.OrdMap
import SymphonyBoard.Common.Run
/-!
# Single flight over a bounded cache

Callers ask; an admission refuses them at once or finds their job. Jobs of
one key share a cached value while it is fresh, and one flight while it is
out. A flight settles, which may cache its value, and lands, which answers
everyone who waits for it. Values are cached for good or for a time, and
the oldest make room.

`Inv` is what holds of every reachable state: no caller is lost or answered
twice, and every answer has a reason (`Justified`).
-/

namespace SymphonyBoard

namespace SingleFlight

/-- A cached value; one without a deadline stays. -/
structure CacheEntry (V : Type*) where
  value : V
  expiresAt : Option ℤ
deriving DecidableEq

/-- Whether an entry still serves at an instant. -/
def CacheEntry.fresh {V : Type*} (entry : CacheEntry V) (now : ℤ) : Bool :=
  entry.expiresAt.all fun deadline => deadline > now

/-- A flight, who waits for it and, with the time it was, how it settled. -/
structure Flight (J E V : Type*) where
  job : J
  waiters : List ℕ
  settled : Option (ℤ × Except E V)
  landed : Bool

/-- Where an answer comes from. -/
inductive Origin (V : Type*)
  | refused
  | cached (entry : CacheEntry V) (now : ℤ)
  | flight (f : ℕ)

/-- An answer to the caller of a number. -/
structure Reply (E V : Type*) where
  caller : ℕ
  outcome : Except E V
  origin : Origin V

/-- The callers, the cache, and the flights. -/
structure State (Q K J E V : Type*) where
  callers : List Q
  cache : OrdMap K (CacheEntry V)
  inFlight : OrdMap K ℕ
  flights : List (Flight J E V)
  replies : List (Reply E V)

/-- Nothing has been asked. -/
def State.initial {Q K J E V : Type*} : State Q K J E V :=
  ⟨[], .empty, .empty, [], []⟩

/-- What happens next: a caller asks, a flight settles, or its value reaches the cache. -/
inductive Event (Q E V : Type*)
  | ask (q : Q) (now : ℤ)
  | settle (f : ℕ) (outcome : Except E V) (now : ℤ)
  | land (f : ℕ)

section

variable {Q K J E V : Type*} [DecidableEq K]

/-! ## Steps -/

/-- The oldest bindings go until `limit` are left. -/
def dropOldest {α : Type*} (limit : ℕ) : List α → List α
  | [] => []
  | a :: l => if (a :: l).length > limit then dropOldest limit l else a :: l

theorem dropOldest_suffix {α : Type*} (limit : ℕ) (l : List α) : dropOldest limit l <:+ l := by
  induction l with
  | nil => exact List.suffix_rfl
  | cons a l ih =>
    rw [dropOldest]
    split
    · exact ih.trans (List.suffix_cons a l)
    · exact List.suffix_rfl

theorem length_dropOldest_le {α : Type*} (limit : ℕ) (l : List α) :
    (dropOldest limit l).length ≤ limit := by
  induction l with
  | nil => exact Nat.zero_le limit
  | cons a l ih =>
    rw [dropOldest]
    split
    · exact ih
    · omega

/-- Bind a key and make room. -/
def remember (limit : ℕ) (cache : OrdMap K (CacheEntry V)) (k : K) (entry : CacheEntry V) :
    OrdMap K (CacheEntry V) :=
  let bound := cache.set k entry
  ⟨dropOldest limit bound.entries, bound.nodup.sublist ((dropOldest_suffix _ _).sublist.map _)⟩

variable (accept : Q → Except V J) (key : J → K) (keep : V → Option (Option ℤ)) (limit : ℕ)

/-- A caller joins the flight of its key, or starts one. -/
def board (s : State Q K J E V) (job : J) (caller : ℕ) : State Q K J E V :=
  match s.inFlight.get? (key job) with
  | some f =>
    { s with
      flights := s.flights.modify f fun flight =>
        { flight with waiters := flight.waiters ++ [caller] } }
  | none =>
    { s with
      inFlight := s.inFlight.set (key job) s.flights.length
      flights := s.flights ++ [⟨job, [caller], none, false⟩] }

/-- An admitted caller: a fresh value answers it, a stale one is dropped. -/
def serve (s : State Q K J E V) (job : J) (caller : ℕ) (now : ℤ) : State Q K J E V :=
  match s.cache.get? (key job) with
  | some entry =>
    if entry.fresh now then
      { s with replies := s.replies ++ [⟨caller, .ok entry.value, .cached entry now⟩] }
    else board key { s with cache := s.cache.erase (key job) } job caller
  | none => board key s job caller

/-- What a settled flight leaves in the cache. `keep` says whether a value
is cached, and for how long. -/
def cacheAfter (cache : OrdMap K (CacheEntry V)) (k : K) (outcome : Except E V) (now : ℤ) :
    OrdMap K (CacheEntry V) :=
  match outcome with
  | .error _ => cache
  | .ok value =>
    match keep value with
    | none => cache
    | some lifetime => remember limit cache k ⟨value, lifetime.map (now + ·)⟩

/-- One event. -/
def step (s : State Q K J E V) : Event Q E V → State Q K J E V
  | .ask q now =>
    let caller := s.callers.length
    let s := { s with callers := s.callers ++ [q] }
    match accept q with
    | .error value => { s with replies := s.replies ++ [⟨caller, .ok value, .refused⟩] }
    | .ok job => serve key s job caller now
  | .settle f outcome now =>
    match s.flights[f]? with
    | none => s
    | some flight =>
      if flight.settled.isSome then s
      else
        { s with
          cache := cacheAfter keep limit s.cache (key flight.job) outcome now
          flights := s.flights.modify f fun flight =>
            { flight with settled := some (now, outcome) } }
  | .land f =>
    match s.flights[f]? with
    | none => s
    | some flight =>
      match flight.settled with
      | none => s
      | some (_, outcome) =>
        if flight.landed then s
        else
          { s with
            inFlight := s.inFlight.erase (key flight.job)
            flights := s.flights.modify f fun flight => { flight with landed := true }
            replies := s.replies ++ flight.waiters.map fun caller =>
              ⟨caller, outcome, .flight f⟩ }

/-! ## What holds of every reachable state -/

/-- What was cached is what a flight of its key settled with, kept as long
as its kind is. -/
def CameFrom (s : State Q K J E V) (k : K) (entry : CacheEntry V) : Prop :=
  ∃ (f : ℕ) (flight : Flight J E V) (t : ℤ) (lifetime : Option ℤ),
    s.flights[f]? = some flight ∧ key flight.job = k ∧
    flight.settled = some (t, .ok entry.value) ∧ keep entry.value = some lifetime ∧
    entry.expiresAt = lifetime.map (t + ·)

/-- Why a caller got its answer. -/
def Justified (s : State Q K J E V) (r : Reply E V) : Prop :=
  ∃ q, s.callers[r.caller]? = some q ∧
    match r.origin with
    | .refused => ∃ value, accept q = .error value ∧ r.outcome = .ok value
    | .cached entry now =>
      entry.fresh now = true ∧ r.outcome = .ok entry.value ∧
        ∃ job, accept q = .ok job ∧ CameFrom key keep s (key job) entry
    | .flight f =>
      ∃ flight t job, s.flights[f]? = some flight ∧ flight.settled = some (t, r.outcome) ∧
        r.caller ∈ flight.waiters ∧ accept q = .ok job ∧ key job = key flight.job

/-- The callers that still wait. -/
def State.waiting (s : State Q K J E V) : List ℕ :=
  s.flights.flatMap fun flight => if flight.landed then [] else flight.waiters

/-- What holds after any events. -/
structure Inv (s : State Q K J E V) : Prop where
  /-- The map holds the flights that have not landed, each under its key. -/
  inFlight : ∀ k f, s.inFlight.get? k = some f ↔
    ∃ flight, s.flights[f]? = some flight ∧ key flight.job = k ∧ flight.landed = false
  landed : ∀ (f : ℕ) (flight : Flight J E V), s.flights[f]? = some flight →
    flight.landed = true → flight.settled ≠ none
  bounded : s.cache.entries.length ≤ limit
  cached : ∀ k entry, s.cache.get? k = some entry → CameFrom key keep s k entry
  waiters : ∀ (f : ℕ) (flight : Flight J E V), s.flights[f]? = some flight →
    ∀ w ∈ flight.waiters, ∃ q job, s.callers[w]? = some q ∧ accept q = .ok job ∧
      key job = key flight.job
  replies : ∀ r ∈ s.replies, Justified accept key keep s r
  answered : ∀ (f : ℕ) (flight : Flight J E V), s.flights[f]? = some flight →
    flight.landed = true → ∀ w ∈ flight.waiters, ∃ t outcome,
      flight.settled = some (t, outcome) ∧ ⟨w, outcome, .flight f⟩ ∈ s.replies
  /-- Every caller is answered once, or waits once. -/
  counted : (s.replies.map (·.caller) ++ s.waiting).Perm (List.range s.callers.length)

variable {accept key keep limit} {s s' : State Q K J E V}

theorem inv_initial : Inv accept key keep limit (.initial : State Q K J E V) where
  inFlight := fun k f => by simp [State.initial]
  landed := fun f flight h => by simp [State.initial] at h
  bounded := Nat.zero_le limit
  cached := fun k entry h => by simp [State.initial] at h
  waiters := fun f flight h => by simp [State.initial] at h
  replies := fun r h => by simp [State.initial] at h
  answered := fun f flight h => by simp [State.initial] at h
  counted := .nil

/-- **At most one flight of a key is out.** -/
theorem Inv.unique (h : Inv accept key keep limit s) {f g : ℕ} {flight flight' : Flight J E V}
    (hf : s.flights[f]? = some flight) (hg : s.flights[g]? = some flight')
    (hkey : key flight.job = key flight'.job) (hflight : flight.landed = false)
    (hflight' : flight'.landed = false) : f = g := by
  have hbound := (h.inFlight _ f).mpr ⟨flight, hf, hkey, hflight⟩
  have hbound' := (h.inFlight _ g).mpr ⟨flight', hg, rfl, hflight'⟩
  exact Option.some.inj (hbound.symm.trans hbound')

/-! ### What later states keep -/

/-- Callers and flights stay, with their jobs and, once settled, what they
settled with; a flight only gains waiters. -/
structure Extends (s s' : State Q K J E V) : Prop where
  callers : ∀ (i : ℕ) (q : Q), s.callers[i]? = some q → s'.callers[i]? = some q
  flights : ∀ (f : ℕ) (flight : Flight J E V), s.flights[f]? = some flight →
    ∃ flight', s'.flights[f]? = some flight' ∧ flight'.job = flight.job ∧
      flight.waiters ⊆ flight'.waiters ∧ ∀ x, flight.settled = some x → flight'.settled = some x

omit [DecidableEq K] in
theorem CameFrom.mono (h : Extends s s') {k : K} {entry : CacheEntry V}
    (hc : CameFrom key keep s k entry) : CameFrom key keep s' k entry := by
  obtain ⟨f, flight, t, lifetime, hf, hk, hsettled, hrest⟩ := hc
  obtain ⟨flight', hf', hjob, -, hkept⟩ := h.flights f flight hf
  exact ⟨f, flight', t, lifetime, hf', by rw [hjob, hk], hkept _ hsettled, hrest⟩

omit [DecidableEq K] in
theorem Justified.mono (h : Extends s s') {r : Reply E V} (hr : Justified accept key keep s r) :
    Justified accept key keep s' r := by
  obtain ⟨q, hq, hwhy⟩ := hr
  refine ⟨q, h.callers _ q hq, ?_⟩
  match horigin : r.origin, hwhy with
  | .refused, hwhy => exact hwhy
  | .cached entry now, ⟨hfresh, hout, job, hjob, hfrom⟩ =>
    exact ⟨hfresh, hout, job, hjob, hfrom.mono h⟩
  | .flight f, ⟨flight, t, job, hf, hsettled, hw, hjob, hkey⟩ =>
    obtain ⟨flight', hf', hjob', hwaiters, hkept⟩ := h.flights f flight hf
    exact ⟨flight', t, job, hf', hkept _ hsettled, hwaiters hw, hjob, by rw [hjob', hkey]⟩

/-! ### Lists with one flight changed -/

theorem getElem?_modify_eq_some {α : Type*} {l : List α} {i j : ℕ} {a b : α} {g : α → α}
    (h : l[i]? = some a) :
    (l.modify i g)[j]? = some b ↔ (j = i ∧ b = g a) ∨ (j ≠ i ∧ l[j]? = some b) := by
  by_cases hj : j = i
  · subst hj
    simp [h, eq_comm]
  · simp [hj, List.getElem?_modify_ne _ _ (Ne.symm hj)]

theorem exists_getElem?_modify {α : Type*} {l : List α} {i j : ℕ} {g : α → α} {p : α → Prop}
    (hp : ∀ a, p (g a) ↔ p a) :
    (∃ a, (l.modify i g)[j]? = some a ∧ p a) ↔ ∃ a, l[j]? = some a ∧ p a := by
  rw [List.getElem?_modify]
  cases l[j]? with
  | none => simp
  | some a => by_cases hij : i = j <;> simp [hij, hp]

theorem flatMap_modify_perm {α β : Type*} {l : List α} {i : ℕ} {a : α} (f : α → α)
    (g : α → List β) (h : l[i]? = some a) :
    ∃ rest, (l.flatMap g).Perm (g a ++ rest) ∧
      ((l.modify i f).flatMap g).Perm (g (f a) ++ rest) := by
  induction l generalizing i with
  | nil => cases h
  | cons b l ih =>
    cases i with
    | zero =>
      obtain rfl : b = a := Option.some.inj h
      exact ⟨l.flatMap g, .refl _, .refl _⟩
    | succ i =>
      obtain ⟨rest, hbefore, hafter⟩ := ih h
      refine ⟨g b ++ rest, ?_, ?_⟩
      · rw [List.flatMap_cons]
        exact (hbefore.append_left _).trans (List.perm_append_comm_assoc _ _ _)
      · rw [List.modify_succ_cons, List.flatMap_cons]
        exact (hafter.append_left _).trans (List.perm_append_comm_assoc _ _ _)

theorem getElem?_append_of_eq_some {α : Type*} {l : List α} {i : ℕ} {a : α} (h : l[i]? = some a)
    (l' : List α) : (l ++ l')[i]? = some a := by
  obtain ⟨hlt, -⟩ := List.getElem?_eq_some_iff.mp h
  rw [List.getElem?_append_left hlt, h]

theorem getElem?_concat_eq_some {α : Type*} {l : List α} {a b : α} {j : ℕ} :
    (l ++ [a])[j]? = some b ↔ l[j]? = some b ∨ (j = l.length ∧ b = a) := by
  rcases Nat.lt_or_ge j l.length with hlt | hge
  · rw [List.getElem?_append_left hlt]
    exact ⟨.inl, fun h => h.resolve_right fun hj => absurd hj.1 (by omega)⟩
  · rw [List.getElem?_append_right hge, List.getElem?_eq_none hge, List.getElem?_singleton]
    by_cases hj : j = l.length
    · simp [hj, eq_comm]
    · simp [hj, show j - l.length ≠ 0 by omega]

/-! ### The steps -/

/-- A caller answered at once. -/
theorem Inv.reply (h : Inv accept key keep limit s) {q : Q} {outcome : Except E V}
    {origin : Origin V}
    (hr : Justified accept key keep { s with callers := s.callers ++ [q] }
      ⟨s.callers.length, outcome, origin⟩) :
    Inv accept key keep limit
      { s with
        callers := s.callers ++ [q]
        replies := s.replies ++ [⟨s.callers.length, outcome, origin⟩] } := by
  have hext : Extends s { s with
      callers := s.callers ++ [q]
      replies := s.replies ++ [⟨s.callers.length, outcome, origin⟩] } :=
    ⟨fun i q' hq => getElem?_append_of_eq_some hq _,
      fun f flight hf => ⟨flight, hf, rfl, fun _ hw => hw, fun _ hx => hx⟩⟩
  refine ⟨h.inFlight, h.landed, h.bounded, fun k entry hk => (h.cached k entry hk).mono hext,
    fun f flight hf w hw => ?_, fun r hmem => ?_, fun f flight hf hl w hw => ?_, ?_⟩
  · obtain ⟨q', job, hq, hrest⟩ := h.waiters f flight hf w hw
    exact ⟨q', job, hext.callers w q' hq, hrest⟩
  · rcases List.mem_append.mp hmem with hold | hnew
    · exact (h.replies r hold).mono hext
    · obtain rfl := List.mem_singleton.mp hnew
      exact hr
  · obtain ⟨t, outcome, hsettled, hmem⟩ := h.answered f flight hf hl w hw
    exact ⟨t, outcome, hsettled, List.mem_append_left _ hmem⟩
  · rw [List.map_append, List.length_append, List.length_singleton, List.range_succ,
      List.append_assoc]
    have hmove : ([s.callers.length] ++ s.waiting).Perm (s.waiting ++ [s.callers.length]) :=
      List.perm_append_comm
    refine (hmove.append_left _).trans ?_
    rw [← List.append_assoc]
    exact h.counted.append_right _

/-- What is cached under a smaller cache came from where it came from. -/
theorem Inv.cached_of_extends (h : Inv accept key keep limit s) (hext : Extends s s')
    (hcache : ∀ k entry, s'.cache.get? k = some entry → s.cache.get? k = some entry) :
    ∀ k entry, s'.cache.get? k = some entry → CameFrom key keep s' k entry :=
  fun k entry hk => (h.cached k entry (hcache k entry hk)).mono hext

/-- A caller joins the flight of its key. -/
theorem Inv.join (h : Inv accept key keep limit s) {q : Q} {job : J} (hjob : accept q = .ok job)
    {cache : OrdMap K (CacheEntry V)} (hbounded : cache.entries.length ≤ limit)
    (hcache : ∀ k entry, cache.get? k = some entry → s.cache.get? k = some entry)
    {f : ℕ} {flight : Flight J E V} (hf : s.flights[f]? = some flight)
    (hkey : key flight.job = key job) (hout : flight.landed = false) :
    Inv accept key keep limit
      { s with
        callers := s.callers ++ [q]
        cache
        flights := s.flights.modify f fun flight =>
          { flight with waiters := flight.waiters ++ [s.callers.length] } } := by
  set boarded : Flight J E V → Flight J E V := fun flight =>
    { flight with waiters := flight.waiters ++ [s.callers.length] } with hboarded
  have hext : Extends s
      { s with callers := s.callers ++ [q], cache, flights := s.flights.modify f boarded } := by
    refine ⟨fun i q' hq => getElem?_append_of_eq_some hq _, fun g flight' hg => ?_⟩
    by_cases hgf : g = f
    · subst hgf
      obtain rfl := Option.some.inj (hf.symm.trans hg)
      exact ⟨boarded flight, (getElem?_modify_eq_some hf).mpr (.inl ⟨rfl, rfl⟩), rfl,
        fun _ hw => List.mem_append_left _ hw, fun _ hx => hx⟩
    · exact ⟨flight', (getElem?_modify_eq_some hf).mpr (.inr ⟨hgf, hg⟩), rfl,
        fun _ hw => hw, fun _ hx => hx⟩
  -- one goal for each clause of the invariant
  refine ⟨fun k g => ?_, fun g flight' hg hl => ?_, hbounded, h.cached_of_extends hext hcache,
    fun g flight' hg w hw => ?_, fun r hr => (h.replies r hr).mono hext,
    fun g flight' hg hl w hw => ?_, ?_⟩
  · rw [h.inFlight]
    exact (exists_getElem?_modify (g := boarded)
      (p := fun flight => key flight.job = k ∧ flight.landed = false) fun _ => Iff.rfl).symm
  · rcases (getElem?_modify_eq_some hf).mp hg with ⟨-, rfl⟩ | ⟨-, hg⟩
    · exact h.landed f flight hf hl
    · exact h.landed g flight' hg hl
  · rcases (getElem?_modify_eq_some hf).mp hg with ⟨-, rfl⟩ | ⟨-, hg⟩
    · rcases List.mem_append.mp hw with hold | hnew
      · obtain ⟨q', job', hq, hrest⟩ := h.waiters f flight hf w hold
        exact ⟨q', job', hext.callers w q' hq, hrest⟩
      · obtain rfl := List.mem_singleton.mp hnew
        exact ⟨q, job, List.getElem?_concat_length, hjob, hkey.symm⟩
    · obtain ⟨q', job', hq, hrest⟩ := h.waiters g flight' hg w hw
      exact ⟨q', job', hext.callers w q' hq, hrest⟩
  · rcases (getElem?_modify_eq_some hf).mp hg with ⟨-, rfl⟩ | ⟨-, hg⟩
    · exact Bool.noConfusion (hout.symm.trans hl)
    · exact h.answered g flight' hg hl w hw
  · obtain ⟨rest, hbefore, hafter⟩ := flatMap_modify_perm boarded
      (fun flight => if flight.landed then [] else flight.waiters) hf
    have hwaiting : (s.flights.flatMap fun flight => if flight.landed then [] else flight.waiters)
        = s.waiting := rfl
    simp only [hboarded, hout, Bool.false_eq_true, if_false] at hbefore hafter
    rw [hwaiting] at hbefore
    rw [List.length_append, List.length_singleton, List.range_succ]
    refine .trans ?_ (h.counted.append_right _)
    rw [List.append_assoc]
    refine List.Perm.append_left _ (hafter.trans ?_)
    rw [List.append_assoc]
    refine (List.Perm.append_left _ List.perm_append_comm).trans ?_
    rw [← List.append_assoc]
    exact hbefore.symm.append_right _

/-- A caller starts the flight of its key. -/
theorem Inv.takeOff (h : Inv accept key keep limit s) {q : Q} {job : J} (hjob : accept q = .ok job)
    {cache : OrdMap K (CacheEntry V)} (hbounded : cache.entries.length ≤ limit)
    (hcache : ∀ k entry, cache.get? k = some entry → s.cache.get? k = some entry)
    (hnone : s.inFlight.get? (key job) = none) :
    Inv accept key keep limit
      { s with
        callers := s.callers ++ [q]
        cache
        inFlight := s.inFlight.set (key job) s.flights.length
        flights := s.flights ++ [⟨job, [s.callers.length], none, false⟩] } := by
  have hext : Extends s
      { s with
        callers := s.callers ++ [q]
        cache
        inFlight := s.inFlight.set (key job) s.flights.length
        flights := s.flights ++ [⟨job, [s.callers.length], none, false⟩] } :=
    ⟨fun i q' hq => getElem?_append_of_eq_some hq _, fun g flight hg =>
      ⟨flight, getElem?_append_of_eq_some hg _, rfl, fun _ hw => hw, fun _ hx => hx⟩⟩
  -- one goal for each clause of the invariant
  refine ⟨fun k g => ?_, fun g flight hg hl => ?_, hbounded, h.cached_of_extends hext hcache,
    fun g flight hg w hw => ?_, fun r hr => (h.replies r hr).mono hext,
    fun g flight hg hl w hw => ?_, ?_⟩
  · rw [OrdMap.get?_set]
    by_cases hk : key job = k
    · -- no flight of the key was out, so the new one is the only one
      subst hk
      rw [if_pos rfl, Option.some.injEq]
      refine ⟨fun hg => ⟨_, getElem?_concat_eq_some.mpr (.inr ⟨hg.symm, rfl⟩), rfl, rfl⟩, ?_⟩
      rintro ⟨flight, hg, hkey, hout⟩
      rcases getElem?_concat_eq_some.mp hg with hg | ⟨hg, -⟩
      · have hbound := (h.inFlight _ g).mpr ⟨flight, hg, hkey, hout⟩
        rw [hnone] at hbound
        cases hbound
      · exact hg.symm
    · rw [if_neg hk, h.inFlight]
      refine exists_congr fun flight => ?_
      rw [getElem?_concat_eq_some]
      refine ⟨fun hg => ⟨.inl hg.1, hg.2⟩, ?_⟩
      rintro ⟨hg | ⟨-, rfl⟩, hkey, hout⟩
      · exact ⟨hg, hkey, hout⟩
      · exact absurd hkey hk
  · rcases getElem?_concat_eq_some.mp hg with hg | ⟨-, rfl⟩
    · exact h.landed g flight hg hl
    · cases hl
  · rcases getElem?_concat_eq_some.mp hg with hg | ⟨-, rfl⟩
    · obtain ⟨q', job', hq, hrest⟩ := h.waiters g flight hg w hw
      exact ⟨q', job', hext.callers w q' hq, hrest⟩
    · obtain rfl := List.mem_singleton.mp hw
      exact ⟨q, job, List.getElem?_concat_length, hjob, rfl⟩
  · rcases getElem?_concat_eq_some.mp hg with hg | ⟨-, rfl⟩
    · exact h.answered g flight hg hl w hw
    · cases hl
  · rw [State.waiting, List.flatMap_append, List.length_append, List.length_singleton,
      List.range_succ, ← List.append_assoc]
    exact h.counted.append_right _

/-- A caller in flight; the cache may have lost a stale value. -/
theorem Inv.board (h : Inv accept key keep limit s) {q : Q} {job : J} (hjob : accept q = .ok job)
    {cache : OrdMap K (CacheEntry V)} (hbounded : cache.entries.length ≤ limit)
    (hcache : ∀ k entry, cache.get? k = some entry → s.cache.get? k = some entry) :
    Inv accept key keep limit
      (board key { s with callers := s.callers ++ [q], cache } job s.callers.length) := by
  unfold SingleFlight.board
  simp only
  cases hfind : s.inFlight.get? (key job) with
  | some f =>
    obtain ⟨flight, hf, hkey, hout⟩ := (h.inFlight _ f).mp hfind
    exact h.join hjob hbounded hcache hf hkey hout
  | none => exact h.takeOff hjob hbounded hcache hfind

theorem length_remember_le (cache : OrdMap K (CacheEntry V)) (k : K) (entry : CacheEntry V) :
    (remember limit cache k entry).entries.length ≤ limit := length_dropOldest_le limit _

/-- What is bound after a binding is the new entry, or was bound before. -/
theorem get?_remember {cache : OrdMap K (CacheEntry V)} {k k' : K} {entry entry' : CacheEntry V}
    (h : (remember limit cache k entry).get? k' = some entry') :
    (k' = k ∧ entry' = entry) ∨ cache.get? k' = some entry' := by
  have hset : (cache.set k entry).get? k' = some entry' :=
    OrdMap.mem_entries_iff.mp ((dropOldest_suffix limit _).subset (OrdMap.mem_entries_iff.mpr h))
  rw [OrdMap.get?_set] at hset
  by_cases hk : k = k'
  · rw [if_pos hk, Option.some.injEq] at hset
    exact .inl ⟨hk.symm, hset.symm⟩
  · rw [if_neg hk] at hset
    exact .inr hset

/-- A flight settles, and its value may be cached. -/
theorem Inv.settle (h : Inv accept key keep limit s) {f : ℕ} {flight : Flight J E V}
    (hf : s.flights[f]? = some flight) (hopen : flight.settled = none) (outcome : Except E V)
    (now : ℤ) :
    Inv accept key keep limit
      { s with
        cache := cacheAfter keep limit s.cache (key flight.job) outcome now
        flights := s.flights.modify f fun flight =>
          { flight with settled := some (now, outcome) } } := by
  set done : Flight J E V → Flight J E V := fun flight =>
    { flight with settled := some (now, outcome) } with hdone
  set cache := cacheAfter keep limit s.cache (key flight.job) outcome now with hcache
  have hnew : (s.flights.modify f done)[f]? = some (done flight) :=
    (getElem?_modify_eq_some hf).mpr (.inl ⟨rfl, rfl⟩)
  have hext : Extends s { s with cache, flights := s.flights.modify f done } := by
    refine ⟨fun i q hq => hq, fun g flight' hg => ?_⟩
    by_cases hgf : g = f
    · subst hgf
      obtain rfl := Option.some.inj (hf.symm.trans hg)
      refine ⟨done flight, hnew, rfl, fun _ hw => hw, fun x hx => ?_⟩
      rw [hopen] at hx
      cases hx
    · exact ⟨flight', (getElem?_modify_eq_some hf).mpr (.inr ⟨hgf, hg⟩), rfl,
        fun _ hw => hw, fun _ hx => hx⟩
  have hout : flight.landed = false := by
    by_contra hl
    exact h.landed f flight hf (Bool.of_not_eq_false hl) hopen
  -- one goal for each clause of the invariant
  refine ⟨fun k g => ?_, fun g flight' hg hl => ?_, ?_, fun k entry hk => ?_,
    fun g flight' hg w hw => ?_, fun r hr => (h.replies r hr).mono hext,
    fun g flight' hg hl w hw => ?_, ?_⟩
  · rw [h.inFlight]
    exact (exists_getElem?_modify (g := done)
      (p := fun flight => key flight.job = k ∧ flight.landed = false) fun _ => Iff.rfl).symm
  · rcases (getElem?_modify_eq_some hf).mp hg with ⟨-, rfl⟩ | ⟨-, hg⟩
    · exact Option.some_ne_none _
    · exact h.landed g flight' hg hl
  · show cache.entries.length ≤ limit
    rw [hcache]
    unfold cacheAfter
    split
    · exact h.bounded
    · split
      · exact h.bounded
      · exact length_remember_le _ _ _
  · -- the new entry came from this flight, and the others from where they did
    have hold (hk : s.cache.get? k = some entry) := (h.cached k entry hk).mono hext
    simp only [hcache, cacheAfter] at hk
    split at hk
    · exact hold hk
    · rename_i value
      split at hk
      · exact hold hk
      · rename_i lifetime hkeep
        rcases get?_remember hk with ⟨rfl, rfl⟩ | hk
        · exact ⟨f, done flight, now, lifetime, hnew, rfl, rfl, hkeep, rfl⟩
        · exact hold hk
  · rcases (getElem?_modify_eq_some hf).mp hg with ⟨-, rfl⟩ | ⟨-, hg⟩
    · exact h.waiters f flight hf w hw
    · exact h.waiters g flight' hg w hw
  · rcases (getElem?_modify_eq_some hf).mp hg with ⟨-, rfl⟩ | ⟨-, hg⟩
    · exact Bool.noConfusion (hout.symm.trans hl)
    · exact h.answered g flight' hg hl w hw
  · obtain ⟨rest, hbefore, hafter⟩ := flatMap_modify_perm done
      (fun flight => if flight.landed then [] else flight.waiters) hf
    exact ((hafter.trans hbefore.symm).append_left _).trans h.counted

/-- A flight lands, and all who waited for it are answered. -/
theorem Inv.land (h : Inv accept key keep limit s) {f : ℕ} {flight : Flight J E V}
    (hf : s.flights[f]? = some flight) {t : ℤ} {outcome : Except E V}
    (hsettled : flight.settled = some (t, outcome)) (hout : flight.landed = false) :
    Inv accept key keep limit
      { s with
        inFlight := s.inFlight.erase (key flight.job)
        flights := s.flights.modify f fun flight => { flight with landed := true }
        replies := s.replies ++ flight.waiters.map fun caller => ⟨caller, outcome, .flight f⟩ } := by
  set down : Flight J E V → Flight J E V := fun flight => { flight with landed := true } with hdown
  have hnew : (s.flights.modify f down)[f]? = some (down flight) :=
    (getElem?_modify_eq_some hf).mpr (.inl ⟨rfl, rfl⟩)
  have hext : Extends s
      { s with
        inFlight := s.inFlight.erase (key flight.job)
        flights := s.flights.modify f down
        replies := s.replies ++ flight.waiters.map fun caller => ⟨caller, outcome, .flight f⟩ } := by
    refine ⟨fun i q hq => hq, fun g flight' hg => ?_⟩
    by_cases hgf : g = f
    · subst hgf
      obtain rfl := Option.some.inj (hf.symm.trans hg)
      exact ⟨down flight, hnew, rfl, fun _ hw => hw, fun _ hx => hx⟩
    · exact ⟨flight', (getElem?_modify_eq_some hf).mpr (.inr ⟨hgf, hg⟩), rfl,
        fun _ hw => hw, fun _ hx => hx⟩
  -- one goal for each clause of the invariant
  refine ⟨fun k g => ?_, fun g flight' hg hl => ?_, h.bounded,
    fun k entry hk => (h.cached k entry hk).mono hext,
    fun g flight' hg w hw => ?_, fun r hr => ?_, fun g flight' hg hl w hw => ?_, ?_⟩
  · rw [OrdMap.get?_erase]
    by_cases hk : k = key flight.job
    · -- it was the only one of its key
      subst hk
      rw [if_pos rfl]
      refine ⟨fun hg => (by cases hg), ?_⟩
      rintro ⟨flight', hg, hkey, hl⟩
      rcases (getElem?_modify_eq_some hf).mp hg with ⟨-, rfl⟩ | ⟨hgf, hg⟩
      · cases hl
      · exact absurd (h.unique hg hf hkey hl hout) hgf
    · rw [if_neg hk, h.inFlight]
      refine exists_congr fun flight' => and_congr_left fun hflight' => ?_
      rw [getElem?_modify_eq_some hf]
      constructor
      · intro hg
        refine .inr ⟨fun hgf => ?_, hg⟩
        subst hgf
        obtain rfl := Option.some.inj (hf.symm.trans hg)
        exact hk hflight'.1.symm
      · rintro (⟨-, rfl⟩ | ⟨-, hg⟩)
        · cases hflight'.2
        · exact hg
  · rcases (getElem?_modify_eq_some hf).mp hg with ⟨-, rfl⟩ | ⟨-, hg⟩
    · show flight.settled ≠ none
      rw [hsettled]
      exact Option.some_ne_none _
    · exact h.landed g flight' hg hl
  · rcases (getElem?_modify_eq_some hf).mp hg with ⟨-, rfl⟩ | ⟨-, hg⟩
    · exact h.waiters f flight hf w hw
    · exact h.waiters g flight' hg w hw
  · rcases List.mem_append.mp hr with hold | hmem
    · exact (h.replies r hold).mono hext
    · obtain ⟨w, hw, rfl⟩ := List.mem_map.mp hmem
      obtain ⟨q, job, hq, hjob, hkey⟩ := h.waiters f flight hf w hw
      exact ⟨q, hq, down flight, t, job, hnew, hsettled, hw, hjob, hkey⟩
  · rcases (getElem?_modify_eq_some hf).mp hg with ⟨rfl, rfl⟩ | ⟨-, hg⟩
    · exact ⟨t, outcome, hsettled, List.mem_append_right _ (List.mem_map_of_mem hw)⟩
    · obtain ⟨t', outcome', hsettled', hmem⟩ := h.answered g flight' hg hl w hw
      exact ⟨t', outcome', hsettled', List.mem_append_left _ hmem⟩
  · -- who waited on the flight is answered now, and nobody else
    obtain ⟨rest, hbefore, hafter⟩ := flatMap_modify_perm down
      (fun flight => if flight.landed then [] else flight.waiters) hf
    have hwaiting : (s.flights.flatMap fun flight => if flight.landed then [] else flight.waiters)
        = s.waiting := rfl
    simp only [hdown, hout, Bool.false_eq_true, if_false, if_true, List.nil_append] at hbefore hafter
    rw [hwaiting] at hbefore
    refine .trans ?_ h.counted
    rw [List.map_append, List.map_map, List.append_assoc]
    refine List.Perm.append_left _ ?_
    have hcallers : flight.waiters.map ((fun r : Reply E V => r.caller) ∘
        fun caller => ⟨caller, outcome, .flight f⟩) = flight.waiters := List.map_id _
    rw [hcallers]
    exact (hafter.append_left _).trans hbefore.symm

/-- **Every step keeps the invariant.** -/
theorem inv_step (s : State Q K J E V) (e : Event Q E V) (h : Inv accept key keep limit s) :
    Inv accept key keep limit (step accept key keep limit s e) := by
  cases e with
  | ask q now =>
    rw [step]
    have hasked : (s.callers ++ [q])[s.callers.length]? = some q := List.getElem?_concat_length
    cases hadmit : accept q with
    | error value => exact h.reply ⟨q, hasked, value, hadmit, rfl⟩
    | ok job =>
      simp only [serve]
      cases hcached : s.cache.get? (key job) with
      | none => exact h.board hadmit h.bounded fun k entry hk => hk
      | some entry =>
        simp only
        split
        · rename_i hfresh
          refine h.reply ⟨q, hasked, hfresh, rfl, job, hadmit, ?_⟩
          exact h.cached _ entry hcached
        · refine h.board hadmit ?_ fun k entry hk => ?_
          · exact Nat.le_trans (List.length_filter_le _ _) h.bounded
          · rw [OrdMap.get?_erase] at hk
            split at hk
            · cases hk
            · exact hk
  | settle f outcome now =>
    rw [step]
    cases hf : s.flights[f]? with
    | none => exact h
    | some flight =>
      simp only
      split
      · exact h
      · rename_i hopen
        exact h.settle hf (by simpa using hopen) outcome now
  | land f =>
    rw [step]
    cases hf : s.flights[f]? with
    | none => exact h
    | some flight =>
      simp only
      split
      · exact h
      · rename_i t outcome hsettled
        split
        · exact h
        · rename_i hout
          exact h.land hf hsettled (by simpa using hout)

theorem inv_run (events : List (Event Q E V)) :
    Always (step accept key keep limit) (Inv accept key keep limit) .initial events :=
  always_of_step inv_step events inv_initial

/-- **No caller is answered twice**, and none is both answered and waiting. -/
theorem Inv.answered_once (h : Inv accept key keep limit s) :
    (s.replies.map (·.caller) ++ s.waiting).Nodup :=
  h.counted.nodup_iff.mpr List.nodup_range

end

end SingleFlight

end SymphonyBoard
