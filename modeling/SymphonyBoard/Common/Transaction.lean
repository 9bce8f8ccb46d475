import Mathlib.Algebra.GroupWithZero.Nat
import Mathlib.Logic.Basic
/-!
# Transactions over one connection

A connection holds what is committed and, while a transaction is open,
what that transaction sees. Every statement is numbered, and the database
decides by the number whether the statement fails. A failing statement may
have done part of its work, and the database may have closed the
transaction over it; outside a transaction it has done nothing.

A session is a program over a connection that can throw and that keeps
variables of its own. `Acts` is the rule for what runs inside a transaction: either all
its statements succeed and its meaning is that of a plain function, or one
fails and nothing is committed. `transaction_spec` turns it into the
all-or-nothing of the transaction.
-/

namespace SymphonyBoard

/-- A connection to a database whose states are `D`. -/
structure DbConnection (D : Type) where
  committed : D
  pending : Option D

/-- How a statement fails: its message, and what it leaves of the open
transaction. -/
structure Fault (D : Type) where
  message : String
  leaves : D → Option D

/-- A session: the connection, how many statements it has run, and the
variables of the program. -/
structure SessionState (D V : Type) where
  db : DbConnection D
  statements : Nat
  vars : V

/-- A session program; a throw keeps what was done before it. -/
def Session (D V α : Type) := SessionState D V → Except String α × SessionState D V

namespace Session

variable {D V α β : Type}

/-- A session that only returns. -/
def ret (a : α) : Session D V α := fun s => (.ok a, s)

/-- A session that throws. -/
def raise (msg : String) : Session D V α := fun s => (.error msg, s)

/-- One session after another, unless the first threw. -/
def andThen (m : Session D V α) (k : α → Session D V β) : Session D V β := fun s =>
  match m s with
  | (.ok a, s') => k a s'
  | (.error msg, s') => (.error msg, s')

instance : Monad (Session D V) where
  pure := ret
  bind := andThen

/-- A result computed beside the database. -/
def lift : Except String α → Session D V α
  | .ok a => ret a
  | .error msg => raise msg

/-- `try`: the outcome as a value. -/
def attempt (m : Session D V α) : Session D V (Except String α) := fun s =>
  let (r, s') := m s
  (.ok r, s')

/-- The variables. -/
def vars : Session D V V := fun s => (.ok s.vars, s)

/-- The variables are set. -/
def assign (f : V → V) : Session D V Unit := fun s => (.ok (), { s with vars := f s.vars })

section Statements

variable (faults : Nat → Option (Fault D))

/-- A statement, on what the open transaction sees or, outside one,
committed at once. -/
def statement (f : D → D × α) : Session D V α := fun s =>
  let ran := { s with statements := s.statements + 1 }
  match faults s.statements, s.db.pending with
  | some fault, some view =>
    (.error fault.message, { ran with db := { s.db with pending := fault.leaves view } })
  | some fault, none => (.error fault.message, ran)
  | none, some view => (.ok (f view).2, { ran with db := { s.db with pending := some (f view).1 } })
  | none, none => (.ok (f s.db.committed).2, { ran with db := { s.db with committed := (f s.db.committed).1 } })

/-- `BEGIN`. -/
def open_ : Session D V Unit := fun s =>
  let ran := { s with statements := s.statements + 1 }
  match faults s.statements, s.db.pending with
  | some fault, _ => (.error fault.message, ran)
  | none, some _ => (.error "cannot start a transaction within a transaction", ran)
  | none, none => (.ok (), { ran with db := { s.db with pending := some s.db.committed } })

/-- `COMMIT`. -/
def commit : Session D V Unit := fun s =>
  let ran := { s with statements := s.statements + 1 }
  match faults s.statements, s.db.pending with
  | some fault, view =>
    (.error fault.message, { ran with db := { s.db with pending := view.bind fault.leaves } })
  | none, some view => (.ok (), { ran with db := { committed := view, pending := none } })
  | none, none => (.error "cannot commit - no transaction is active", ran)

/-- `ROLLBACK`: it fails where the database has closed the transaction. -/
def rollback : Session D V Unit := fun s =>
  match s.db.pending with
  | some _ => (.ok (), { s with db := { s.db with pending := none } })
  | none => (.error "cannot rollback - no transaction is active", s)

/-- The body, then `COMMIT`. -/
def committing (body : Session D V α) : Session D V α := do
  let result ← body
  commit faults
  return result

/-- A throw rolls back and goes on. -/
def orRollback : Except String α → Session D V α
  | .ok result => pure result
  | .error msg => do
    rollback
    raise msg

/-- All of the body or nothing of it. -/
def transaction (body : Session D V α) : Session D V α := do
  open_ faults
  let r ← attempt (committing faults body)
  orRollback r

end Statements

/-! ## Running -/

@[simp] theorem pure_run (a : α) (s : SessionState D V) :
    (pure a : Session D V α) s = (.ok a, s) := rfl

@[simp] theorem lift_ok_run (a : α) (s : SessionState D V) :
    (lift (.ok a) : Session D V α) s = (.ok a, s) := rfl

@[simp] theorem lift_error_run (msg : String) (s : SessionState D V) :
    (lift (.error msg) : Session D V α) s = (.error msg, s) := rfl

theorem bind_run_ok {m : Session D V α} {k : α → Session D V β} {s s' : SessionState D V} {a : α}
    (h : m s = (.ok a, s')) : (m >>= k) s = k a s' := by
  change (match m s with
    | (.ok a, s') => k a s'
    | (.error msg, s') => (.error msg, s')) = _
  rw [h]

theorem bind_run_error {m : Session D V α} {k : α → Session D V β} {s s' : SessionState D V}
    {msg : String} (h : m s = (.error msg, s')) : (m >>= k) s = (.error msg, s') := by
  change (match m s with
    | (.ok a, s') => k a s'
    | (.error msg, s') => (.error msg, s')) = _
  rw [h]

theorem lift_ok_bind (a : α) (k : α → Session D V β) : (lift (.ok a) >>= k) = k a := rfl

theorem attempt_run (m : Session D V α) (s : SessionState D V) :
    attempt m s = (.ok (m s).1, (m s).2) := rfl

/-! ## Inside a transaction -/

/-- None of the next `n` statements fails. -/
def Quiet (faults : Nat → Option (Fault D)) (start n : Nat) : Prop :=
  ∀ i, start ≤ i → i < start + n → faults i = none

theorem quiet_zero (faults : Nat → Option (Fault D)) (start : Nat) : Quiet faults start 0 :=
  fun _ h h' => by omega

theorem quiet_add {faults : Nat → Option (Fault D)} {start m n : Nat} :
    Quiet faults start (m + n) ↔ Quiet faults start m ∧ Quiet faults (start + m) n := by
  constructor
  · intro h
    exact ⟨fun i h1 h2 => h i h1 (by omega), fun i h1 h2 => h i (by omega) (by omega)⟩
  · rintro ⟨h1, h2⟩ i hi hi'
    rcases Nat.lt_or_ge i (start + m) with hlt | hge
    · exact h1 i hi hlt
    · exact h2 i hge (by omega)

theorem quiet_one {faults : Nat → Option (Fault D)} {start : Nat} :
    Quiet faults start 1 ↔ faults start = none := by
  constructor
  · exact fun h => h start (Nat.le_refl _) (Nat.lt_succ_self _)
  · intro h i h1 h2
    obtain rfl : i = start := by omega
    exact h

section Acts

variable (faults : Nat → Option (Fault D))

/-- From the view `d` and the variables `v`, the program runs `n`
statements to `a`, `d'` and `v'`; where one of them fails, nothing is committed and
the variables are among `left`. -/
def Acts (m : Session D V α) (d : D) (v : V) (n : Nat) (a : α) (d' : D) (v' : V)
    (left : V → Prop) : Prop :=
  ∀ s : SessionState D V, s.db.pending = some d → s.vars = v →
    (Quiet faults s.statements n →
      m s = (.ok a, { db := { s.db with pending := some d' }, statements := s.statements + n,
                      vars := v' })) ∧
    (¬ Quiet faults s.statements n →
      ∃ msg s', m s = (.error msg, s') ∧ s'.db.committed = s.db.committed ∧ left s'.vars)

variable {faults} {m : Session D V α} {k : α → Session D V β} {d d' d'' : D} {v v' v'' : V}
variable {n n' : Nat} {a : α} {b : β} {left left' : V → Prop}

theorem Acts.mono (h : Acts faults m d v n a d' v' left) (hleft : ∀ v, left v → left' v) :
    Acts faults m d v n a d' v' left' := by
  intro s hd hv
  refine ⟨(h s hd hv).1, fun hq => ?_⟩
  obtain ⟨msg, s', hrun, hdb, hs'⟩ := (h s hd hv).2 hq
  exact ⟨msg, s', hrun, hdb, hleft _ hs'⟩

theorem acts_pure (a : α) : Acts faults (pure a) d v 0 a d v left := by
  intro s hd hv
  refine ⟨fun _ => ?_, fun hq => absurd (quiet_zero _ _) hq⟩
  subst hv
  rw [pure_run, ← hd]
  rfl

theorem acts_assign (f : V → V) : Acts faults (assign f) d v 0 () d (f v) left := by
  intro s hd hv
  refine ⟨fun _ => ?_, fun hq => absurd (quiet_zero _ _) hq⟩
  subst hv
  rw [← hd]
  rfl

theorem acts_statement (f : D → D × α) (hleft : left v) :
    Acts faults (statement faults f) d v 1 (f d).2 (f d).1 v left := by
  intro s hd hv
  rw [quiet_one]
  cases hf : faults s.statements with
  | none =>
    refine ⟨fun _ => ?_, fun h => absurd rfl h⟩
    subst hv
    simp only [statement, hf, hd]
  | some fault =>
    refine ⟨fun h => (Option.some_ne_none fault h).elim, fun _ => ⟨fault.message,
      { s with statements := s.statements + 1, db := { s.db with pending := fault.leaves d } },
      ?_, rfl, hv ▸ hleft⟩⟩
    simp only [statement, hf, hd]

theorem acts_bind (hm : Acts faults m d v n a d' v' left)
    (hk : Acts faults (k a) d' v' n' b d'' v'' left) :
    Acts faults (m >>= k) d v (n + n') b d'' v'' left := by
  intro s hd hv
  obtain ⟨hok, herr⟩ := hm s hd hv
  rw [quiet_add]
  constructor
  · rintro ⟨hq, hq'⟩
    rw [bind_run_ok (hok hq), (hk _ rfl rfl).1 hq', Nat.add_assoc]
  · intro hq
    by_cases hq1 : Quiet faults s.statements n
    · have hq2 : ¬ Quiet faults (s.statements + n) n' := fun hq2 => hq ⟨hq1, hq2⟩
      obtain ⟨msg, s', hrun, hdb, hs'⟩ :=
        (hk { db := { s.db with pending := some d' }, statements := s.statements + n, vars := v' }
          rfl rfl).2 hq2
      exact ⟨msg, s', by rw [bind_run_ok (hok hq1), hrun], hdb, hs'⟩
    · obtain ⟨msg, s', hrun, hdb, hs'⟩ := herr hq1
      exact ⟨msg, s', bind_run_error hrun, hdb, hs'⟩

/-- A loop runs its body's plain function over the list. -/
theorem acts_forM {ι : Type} {body : ι → Session D V PUnit} {step : D → ι → D} {count : ι → Nat}
    (hbody : ∀ x d, Acts faults (body x) d v (count x) () (step d x) v left) (l : List ι) (d : D) :
    Acts faults (l.forM body) d v (l.map count).sum () (l.foldl step d) v left := by
  induction l generalizing d with
  | nil => exact acts_pure ()
  | cons x l ih => exact acts_bind (hbody x d) (ih (step d x))

/-- A throw closes the transaction, whether or not the database already
has. -/
theorem orRollback_error_run (msg : String) (s : SessionState D V) :
    ∃ msg', (orRollback (.error msg) : Session D V α) s =
      (.error msg', { s with db := ⟨s.db.committed, none⟩ }) := by
  cases hp : s.db.pending with
  | some view =>
    have hroll : rollback s = (.ok (), { s with db := ⟨s.db.committed, none⟩ }) := by
      simp only [rollback, hp]
    exact ⟨msg, bind_run_ok hroll⟩
  | none =>
    have hroll : rollback s =
        (.error "cannot rollback - no transaction is active",
          { s with db := ⟨s.db.committed, none⟩ }) := by
      simp only [rollback, hp]
      rw [← hp]
    exact ⟨_, bind_run_error hroll⟩

/-- The body and `COMMIT` inside an open transaction. -/
theorem committing_spec (hm : Acts faults m d v n a d' v' left) (hleft' : left v')
    (s : SessionState D V) (hd : s.db = ⟨d, some d⟩) (hv : s.vars = v) :
    (Quiet faults s.statements (n + 1) →
      committing faults m s =
        (.ok a, { db := ⟨d', none⟩, statements := s.statements + (n + 1), vars := v' })) ∧
    (¬ Quiet faults s.statements (n + 1) →
      ∃ msg s', committing faults m s = (.error msg, s') ∧ s'.db.committed = d ∧
        left s'.vars) := by
  obtain ⟨hok, herr⟩ := hm s (by rw [hd]) hv
  rw [hd] at herr
  rw [quiet_add, quiet_one]
  by_cases hq : Quiet faults s.statements n
  · have hbody := hok hq
    cases hc : faults (s.statements + n) with
    | none =>
      refine ⟨fun _ => ?_, fun h => absurd ⟨hq, rfl⟩ h⟩
      refine (bind_run_ok hbody).trans (bind_run_ok (a := ()) ?_)
      simp only [commit, hc]
      rfl
    | some fault =>
      refine ⟨fun h => (Option.some_ne_none fault h.2).elim, fun _ => ⟨fault.message,
        { db := ⟨d, fault.leaves d'⟩, statements := s.statements + n + 1, vars := v' },
        ?_, rfl, hleft'⟩⟩
      refine (bind_run_ok hbody).trans (bind_run_error ?_)
      simp only [commit, hc, hd, Option.bind_some]
  · refine ⟨fun h => absurd h.1 hq, fun _ => ?_⟩
    obtain ⟨msg, s', hrun, hdb, hs'⟩ := herr hq
    exact ⟨msg, s', bind_run_error hrun, hdb, hs'⟩

/-- **All or nothing.** Outside a transaction, a body that acts is
committed whole or not at all, and the connection is left without an open
transaction. -/
theorem transaction_spec (hm : Acts faults m d v n a d' v' left) (hleft : left v)
    (hleft' : left v') (s : SessionState D V) (hd : s.db = ⟨d, none⟩) (hv : s.vars = v) :
    (Quiet faults s.statements (n + 2) →
      transaction faults m s =
        (.ok a, { db := ⟨d', none⟩, statements := s.statements + (n + 2), vars := v' })) ∧
    (¬ Quiet faults s.statements (n + 2) →
      ∃ msg s', transaction faults m s = (.error msg, s') ∧ s'.db = ⟨d, none⟩ ∧
        left s'.vars) := by
  rw [show n + 2 = 1 + (n + 1) by omega, quiet_add, quiet_one]
  cases hf : faults s.statements with
  | some fault =>
    refine ⟨fun h => (Option.some_ne_none fault h.1).elim, fun _ => ⟨fault.message,
      { s with statements := s.statements + 1 }, bind_run_error ?_, hd, hv ▸ hleft⟩⟩
    simp only [open_, hf]
  | none =>
    let begun : SessionState D V := { db := ⟨d, some d⟩, statements := s.statements + 1, vars := v }
    have hopen : open_ faults s = (.ok (), begun) := by
      simp only [open_, hf, hd, hv, begun]
    have hrest : ∀ r s', committing faults m begun = (r, s') →
        transaction faults m s = orRollback r s' := by
      intro r s' hrun
      refine (bind_run_ok hopen).trans ((bind_run_ok (attempt_run _ _)).trans ?_)
      rw [hrun]
    obtain ⟨hok, herr⟩ := committing_spec hm hleft' begun rfl rfl
    constructor
    · rintro ⟨-, hq⟩
      rw [hrest _ _ (hok hq), Nat.add_assoc]
      rfl
    · intro hq
      obtain ⟨msg, s', hrun, hdb, hs'⟩ := herr fun hq' => hq ⟨rfl, hq'⟩
      obtain ⟨msg', hroll⟩ := orRollback_error_run (α := α) msg s'
      refine ⟨msg', _, (hrest _ _ hrun).trans hroll, ?_, hs'⟩
      rw [hdb]

end Acts

/-! ## Outside a transaction -/

section Autocommit

variable {faults : Nat → Option (Fault D)} {m : Session D V α} {k : α → Session D V β}
variable {γ : Type} {view : D → γ} {d d' d'' : D} {n n' : Nat} {a : α} {b : β}

/-- Whatever fails, the committed state looks the same through `view`. -/
def Keeps (view : D → γ) (m : Session D V α) : Prop :=
  ∀ s : SessionState D V, s.db.pending = none →
    view (m s).2.db.committed = view s.db.committed ∧ (m s).2.db.pending = none ∧
      (m s).2.vars = s.vars

theorem keeps_pure (a : α) : Keeps view (pure a : Session D V α) := fun _ h => ⟨rfl, h, rfl⟩

theorem keeps_lift (r : Except String α) : Keeps view (lift r : Session D V α) := by
  intro s h
  cases r <;> exact ⟨rfl, h, rfl⟩

theorem keeps_statement {f : D → D × α} (hf : ∀ d, view (f d).1 = view d) :
    Keeps view (statement faults f : Session D V α) := by
  intro s h
  unfold statement
  rw [h]
  cases faults s.statements with
  | none => exact ⟨hf _, h, rfl⟩
  | some fault => exact ⟨rfl, h, rfl⟩

theorem keeps_bind (hm : Keeps view m) (hk : ∀ a, Keeps view (k a)) : Keeps view (m >>= k) := by
  intro s h
  obtain ⟨hview, hpend, hvars⟩ := hm s h
  cases hrun : m s with
  | mk r s' =>
    rw [hrun] at hview hpend hvars
    cases r with
    | error msg =>
      rw [bind_run_error hrun]
      exact ⟨hview, hpend, hvars⟩
    | ok a =>
      rw [bind_run_ok hrun]
      obtain ⟨hview', hpend', hvars'⟩ := hk a s' hpend
      exact ⟨hview'.trans hview, hpend', hvars'.trans hvars⟩

/-- If none of its `n` statements fails, the program takes the committed
state `d` to `d'` and returns `a`; otherwise it throws. -/
def Autocommits (faults : Nat → Option (Fault D)) (m : Session D V α) (d : D) (n : Nat) (a : α)
    (d' : D) : Prop :=
  ∀ s : SessionState D V, s.db = ⟨d, none⟩ →
    (Quiet faults s.statements n →
      m s = (.ok a, { db := ⟨d', none⟩, statements := s.statements + n, vars := s.vars })) ∧
    (¬ Quiet faults s.statements n → ∃ msg s', m s = (.error msg, s'))

theorem autocommits_pure (a : α) : Autocommits (V := V) faults (pure a) d 0 a d := by
  intro s hd
  refine ⟨fun _ => ?_, fun hq => absurd (quiet_zero _ _) hq⟩
  rw [pure_run, ← hd]
  rfl

theorem autocommits_statement (f : D → D × α) :
    Autocommits (V := V) faults (statement faults f) d 1 (f d).2 (f d).1 := by
  intro s hd
  rw [quiet_one]
  cases hf : faults s.statements with
  | none =>
    refine ⟨fun _ => ?_, fun h => absurd rfl h⟩
    simp only [statement, hf, hd]
  | some fault =>
    refine ⟨fun h => (Option.some_ne_none fault h).elim, fun _ => ⟨fault.message,
      { s with statements := s.statements + 1 }, ?_⟩⟩
    simp only [statement, hf, hd]

theorem autocommits_bind (hm : Autocommits faults m d n a d')
    (hk : Autocommits faults (k a) d' n' b d'') : Autocommits faults (m >>= k) d (n + n') b d'' := by
  intro s hd
  obtain ⟨hok, herr⟩ := hm s hd
  rw [quiet_add]
  constructor
  · rintro ⟨hq, hq'⟩
    rw [bind_run_ok (hok hq), (hk _ rfl).1 hq', Nat.add_assoc]
  · intro hq
    by_cases hq1 : Quiet faults s.statements n
    · have hq2 : ¬ Quiet faults (s.statements + n) n' := fun hq2 => hq ⟨hq1, hq2⟩
      obtain ⟨msg, s', hrun⟩ :=
        (hk { db := ⟨d', none⟩, statements := s.statements + n, vars := s.vars } rfl).2 hq2
      exact ⟨msg, s', by rw [bind_run_ok (hok hq1), hrun]⟩
    · obtain ⟨msg, s', hrun⟩ := herr hq1
      exact ⟨msg, s', bind_run_error hrun⟩

end Autocommit

/-! ## Inside a transaction or outside -/

end Session

/-- What a connection's statements see. -/
def DbConnection.view {D : Type} (db : DbConnection D) : D := db.pending.getD db.committed

/-- The connection once its statements have made this of what they see. -/
def DbConnection.seeing {D : Type} (db : DbConnection D) (d : D) : DbConnection D :=
  match db.pending with
  | some _ => ⟨db.committed, some d⟩
  | none => ⟨d, none⟩

namespace Session

section Runs

variable {D V α β : Type} {faults : Nat → Option (Fault D)} {m : Session D V α}
variable {k : α → Session D V β} {d d' d'' : D} {v v' v'' : V} {a : α} {b : β}

variable (faults) in
/-- Where the statements see `d` and the variables are `v`, the program
returns `a` and leaves `d'` and `v'`; or a statement fails and it throws,
and then a transaction it runs in has committed nothing. -/
def Runs (m : Session D V α) (d : D) (v : V) (a : α) (d' : D) (v' : V) : Prop :=
  ∀ s : SessionState D V, s.db.view = d → s.vars = v →
    (∃ n, m s = (.ok a, ⟨s.db.seeing d', n, v'⟩)) ∨
    ∃ msg s', m s = (.error msg, s') ∧ (∃ i, faults i ≠ none) ∧
      (s.db.pending ≠ none → s'.db.committed = s.db.committed)

theorem seeing_view (db : DbConnection D) : db.seeing db.view = db := by
  obtain ⟨committed, pending⟩ := db
  cases pending <;> rfl

theorem view_seeing (db : DbConnection D) (d : D) : (db.seeing d).view = d := by
  obtain ⟨committed, pending⟩ := db
  cases pending <;> rfl

theorem seeing_seeing (db : DbConnection D) (d d' : D) :
    (db.seeing d).seeing d' = db.seeing d' := by
  obtain ⟨committed, pending⟩ := db
  cases pending <;> rfl

theorem runs_pure (a : α) (d : D) (v : V) : Runs faults (pure a) d v a d v := by
  rintro s rfl rfl
  exact Or.inl ⟨s.statements, by rw [pure_run, seeing_view]⟩

theorem runs_assign (f : V → V) (d : D) (v : V) : Runs faults (assign f) d v () d (f v) := by
  rintro s rfl rfl
  exact Or.inl ⟨s.statements, by rw [assign, seeing_view]⟩

theorem runs_vars (d : D) (v : V) : Runs faults (vars : Session D V V) d v v d v := by
  rintro s rfl rfl
  exact Or.inl ⟨s.statements, by rw [vars, seeing_view]⟩

theorem runs_statement (f : D → D × α) (d : D) (v : V) :
    Runs faults (statement faults f) d v (f d).2 (f d).1 v := by
  rintro ⟨⟨committed, pending⟩, n, v⟩ rfl rfl
  cases hf : faults n with
  | none =>
    cases pending with
    | none => exact Or.inl ⟨n + 1, by simp only [statement, hf]; rfl⟩
    | some view => exact Or.inl ⟨n + 1, by simp only [statement, hf]; rfl⟩
  | some fault =>
    have hfault : ∃ i, faults i ≠ none := ⟨n, by rw [hf]; exact Option.some_ne_none fault⟩
    cases pending with
    | none =>
      exact Or.inr ⟨fault.message, ⟨⟨committed, none⟩, n + 1, v⟩, by simp only [statement, hf],
        hfault, fun _ => rfl⟩
    | some view =>
      exact Or.inr ⟨fault.message, ⟨⟨committed, fault.leaves view⟩, n + 1, v⟩,
        by simp only [statement, hf], hfault, fun _ => rfl⟩

theorem runs_bind (hm : Runs faults m d v a d' v') (hk : Runs faults (k a) d' v' b d'' v'') :
    Runs faults (m >>= k) d v b d'' v'' := by
  intro s hd hv
  rcases hm s hd hv with ⟨n, hrun⟩ | ⟨msg, s', hrun, hfault, hkept⟩
  · rcases hk ⟨s.db.seeing d', n, v'⟩ (view_seeing _ _) rfl with
      ⟨n', hrun'⟩ | ⟨msg, s', hrun', hfault, hkept⟩
    · exact Or.inl ⟨n', by rw [bind_run_ok hrun, hrun', seeing_seeing]⟩
    · refine Or.inr ⟨msg, s', by rw [bind_run_ok hrun, hrun'], hfault, fun hopen => ?_⟩
      cases hp : s.db.pending with
      | none => exact absurd hp hopen
      | some view =>
        have hdb : s.db.seeing d' = ⟨s.db.committed, some d'⟩ := by
          rw [DbConnection.seeing, hp]
        have hkept := hkept (by rw [hdb]; exact Option.some_ne_none d')
        rw [hdb] at hkept
        exact hkept
  · exact Or.inr ⟨msg, s', bind_run_error hrun, hfault, hkept⟩

/-- A loop, each of its steps from what the step before left. -/
theorem runs_forM {ι : Type} {body : ι → Session D V PUnit} {step : D × V → ι → D × V}
    (hbody : ∀ x d v, Runs faults (body x) d v () (step (d, v) x).1 (step (d, v) x).2) (l : List ι)
    (d : D) (v : V) : Runs faults (l.forM body) d v () (l.foldl step (d, v)).1
      (l.foldl step (d, v)).2 := by
  induction l generalizing d v with
  | nil => exact runs_pure () d v
  | cons x l ih => exact runs_bind (hbody x d v) (ih _ _)

end Runs

end Session

end SymphonyBoard
