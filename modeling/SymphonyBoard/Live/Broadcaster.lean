import SymphonyBoard.Live.Receiver
/-!
# The live broadcast

The receiver at work: webhook deliveries of `src/live/receiver.ts` are
stored and then sent to the connections of `src/live/broadcaster.ts`, in
any order with connects, closes and prunes. A turn of the event loop is one
step: a delivery's events are appended and broadcast without an `await`
between, and a connection is registered and given its backlog in one go.

A delivery may throw between two appends. The rows it has stored by then
are never sent to anyone: no event is returned for a redelivery of them.
Where no delivery throws after storing a row, every subscriber has been
sent every row above the cursor it connected with (`cursorSound_run`).

A `live-update` frame and a heartbeat carry no number; where writing one
evicts a subscriber, that is a `drop`.
-/

namespace SymphonyBoard

/-- An open connection. The cursor it was registered with and the numbers of
the frames written to it are kept besides what the broadcaster keeps. -/
structure LiveSubscriber where
  id : ℕ
  connectCursor : ℕ
  lastSentSeq : ℕ
  written : List ℕ
deriving DecidableEq

/-- `send`: nothing for what was sent before; the write goes through, or the
subscriber is evicted. -/
def LiveSubscriber.send (writes : ℕ → ℕ → Bool) (seq : ℕ) (sub : LiveSubscriber) :
    Option LiveSubscriber :=
  if seq ≤ sub.lastSentSeq then some sub
  else if writes sub.id seq then
    some { sub with lastSentSeq := seq, written := sub.written ++ [seq] }
  else none

/-- One event after the other, until the subscriber is evicted. -/
def LiveSubscriber.sendAll (writes : ℕ → ℕ → Bool) (seqs : List ℕ) (sub : LiveSubscriber) :
    Option LiveSubscriber :=
  seqs.foldl (fun o seq => o.bind (LiveSubscriber.send writes seq)) (some sub)

/-- `broadcast`, to the subscribers there are at the time. -/
def broadcastLive (writes : ℕ → ℕ → Bool) (subs : List LiveSubscriber) (seq : ℕ) :
    List LiveSubscriber := subs.filterMap (LiveSubscriber.send writes seq)

/-- The receiver: what it stores, who listens, and the next listener's number. -/
structure LiveReceiver where
  db : LiveDb
  subs : List LiveSubscriber
  nextId : ℕ

variable {N : Type}

/-- What happens at the receiver. A delivery has its events, each with the
numbers its insert skips; `fails` says before which append it throws, or,
past the last one, that the read of the profiles throws. `writes` says which
writes to which subscriber go through. -/
inductive ReceiverAction (N : Type)
  | deliver (inputs : List (LiveEventInput N × ℕ)) (fails : Option ℕ) (writes : ℕ → ℕ → Bool)
  | connect (cursor : ℕ) (writes : ℕ → ℕ → Bool)
  | drop (gone : ℕ → Bool)
  | prune (dropped : LiveRow LiveColumns → Bool)

/-- `scoped.forEach((input, i) => store.append(input, i))`, with the numbers
of the new rows. -/
def appendAll (f : NumberFormat N) (db : LiveDb) :
    ℕ → List (LiveEventInput N × ℕ) → LiveDb × List ℕ
  | _, [] => (db, [])
  | i, (input, skipped) :: rest =>
    let appended := db.append f input i skipped
    let later := appendAll f appended.1 (i + 1) rest
    (later.1, (appended.2.map (·.seq)).toList ++ later.2)

namespace LiveReceiver

/-- Nobody listens yet. -/
def start (db : LiveDb) : LiveReceiver := ⟨db, [], 1⟩

/-- `Broadcaster.add`. -/
def add (s : LiveReceiver) (cursor : ℕ) : LiveSubscriber :=
  { id := s.nextId, connectCursor := cursor, lastSentSeq := cursor, written := [] }

/-- A listener connects: it is answered from the store first, and fed live from there. -/
def connect (cfg : ReplayConfig) (s : LiveReceiver) (cursor : ℕ) (writes : ℕ → ℕ → Bool) :
    LiveReceiver :=
  if cfg.maxConnections ≤ s.subs.length then s
  else match handleSse cfg s.db.store cursor with
    | .reset _ maxSeq => { s with subs := s.subs ++ [s.add maxSeq], nextId := s.nextId + 1 }
    -- the subscriber of a first part is removed again
    | .cut _ => { s with nextId := s.nextId + 1 }
    | .replay rows =>
      { s with
        subs := s.subs ++ ((s.add cursor).sendAll writes (rows.map (·.seq))).toList
        nextId := s.nextId + 1 }

/-- What each action does to the receiver. -/
def step (f : NumberFormat N) (cfg : ReplayConfig) (s : LiveReceiver) :
    ReceiverAction N → LiveReceiver
  | .deliver inputs none writes =>
    let appended := appendAll f s.db 0 inputs
    { s with db := appended.1, subs := appended.2.foldl (broadcastLive writes) s.subs }
  | .deliver inputs (some k) _ => { s with db := (appendAll f s.db 0 (inputs.take k)).1 }
  | .connect cursor writes => s.connect cfg cursor writes
  | .drop gone => { s with subs := s.subs.filter fun sub => !gone sub.id }
  | .prune dropped => { s with db := s.db.prune dropped }

end LiveReceiver

/-! ## What is sent -/

variable {writes : ℕ → ℕ → Bool} {seqs : List ℕ} {sub sub' : LiveSubscriber} {f : NumberFormat N}

/-- **A subscriber that is not evicted is sent all that is new to it.** -/
theorem sendAll_eq_some (hasc : seqs.Pairwise (· < ·)) (hnew : ∀ seq ∈ seqs, sub.lastSentSeq < seq)
    (h : sub.sendAll writes seqs = some sub') :
    sub'.written = sub.written ++ seqs ∧ sub'.connectCursor = sub.connectCursor ∧
      sub'.lastSentSeq = seqs.getLast?.getD sub.lastSentSeq := by
  unfold LiveSubscriber.sendAll at h
  induction seqs using List.reverseRecOn generalizing sub' with
  | nil =>
    obtain rfl := Option.some.inj h
    exact ⟨(List.append_nil _).symm, rfl, rfl⟩
  | append_singleton seqs seq ih =>
    rw [List.foldl_append, List.foldl_cons, List.foldl_nil] at h
    obtain ⟨mid, hmid, hsend⟩ := Option.bind_eq_some_iff.mp h
    obtain ⟨hasc', -, hlt⟩ := List.pairwise_append.mp hasc
    obtain ⟨hwritten, hcursor, hlast⟩ := ih hasc'
      (fun x hx => hnew x (List.mem_append_left _ hx)) hmid
    have hbelow : mid.lastSentSeq < seq := by
      rw [hlast]
      cases hget : seqs.getLast? with
      | none => exact hnew seq (List.mem_append_right _ (List.mem_singleton_self seq))
      | some last => exact hlt last (List.mem_of_getLast? hget) seq (List.mem_singleton_self seq)
    rw [LiveSubscriber.send, if_neg (by omega)] at hsend
    split at hsend
    · obtain rfl := Option.some.inj hsend
      refine ⟨?_, hcursor, ?_⟩
      · show mid.written ++ [seq] = _
        rw [hwritten, List.append_assoc]
      · rw [List.getLast?_concat]
        rfl
    · cases hsend

/-- A broadcast of several events, subscriber by subscriber. -/
theorem foldl_broadcastLive (subs : List LiveSubscriber) :
    seqs.foldl (broadcastLive writes) subs =
      subs.filterMap (LiveSubscriber.sendAll writes seqs) := by
  unfold LiveSubscriber.sendAll
  induction seqs using List.reverseRecOn with
  | nil =>
    rw [List.foldl_nil]
    exact (List.filterMap_some).symm
  | append_singleton seqs seq ih =>
    rw [List.foldl_append, List.foldl_cons, List.foldl_nil, ih, broadcastLive,
      List.filterMap_filterMap]
    simp only [List.foldl_append, List.foldl_cons, List.foldl_nil]

/-- The table after rows with these numbers were put behind those it had:
higher ones than were ever given out. -/
structure Appended (db : LiveDb) (seqs : List ℕ) (db' : LiveDb) : Prop where
  rows : ∃ rows, db'.store.rows = db.store.rows ++ rows ∧ rows.map (·.seq) = seqs
  ascending : seqs.Pairwise (· < ·)
  sequence : db.sequence ≤ db'.sequence
  bounds : ∀ seq ∈ seqs, db.sequence < seq ∧ seq ≤ db'.sequence

theorem Appended.refl (db : LiveDb) : Appended db [] db :=
  ⟨⟨[], (List.append_nil _).symm, rfl⟩, List.Pairwise.nil, le_rfl, by simp⟩

theorem Appended.trans {db₁ db₂ db₃ : LiveDb} {seqs₁ seqs₂ : List ℕ}
    (h : Appended db₁ seqs₁ db₂) (h' : Appended db₂ seqs₂ db₃) :
    Appended db₁ (seqs₁ ++ seqs₂) db₃ := by
  obtain ⟨⟨rows, hrows, hseqs⟩, hasc, hle, hbounds⟩ := h
  obtain ⟨⟨rows', hrows', hseqs'⟩, hasc', hle', hbounds'⟩ := h'
  refine ⟨⟨rows ++ rows', by rw [hrows', hrows, List.append_assoc], by
    rw [List.map_append, hseqs, hseqs']⟩, ?_, hle.trans hle', fun seq hseq => ?_⟩
  · refine List.pairwise_append.mpr ⟨hasc, hasc', fun a ha b hb => ?_⟩
    exact lt_of_le_of_lt (hbounds a ha).2 (hbounds' b hb).1
  · rcases List.mem_append.mp hseq with hseq | hseq
    · exact ⟨(hbounds seq hseq).1, (hbounds seq hseq).2.trans hle'⟩
    · exact ⟨lt_of_le_of_lt hle (hbounds' seq hseq).1, (hbounds' seq hseq).2⟩

theorem appended_append (f : NumberFormat N) (db : LiveDb) (input : LiveEventInput N)
    (i skipped : ℕ) :
    Appended db ((db.append f input i skipped).2.map (·.seq)).toList
      (db.append f input i skipped).1 := by
  by_cases hhas : db.Has (LiveColumns.ofInput f input i).key
  · obtain ⟨hsame, hnone⟩ := LiveDb.append_known skipped hhas
    have hsequence : (db.append f input i skipped).1.sequence = db.sequence + skipped := by
      rw [LiveDb.append, if_pos hhas]
    rw [hnone]
    exact ⟨⟨[], by rw [hsame, List.append_nil], rfl⟩, List.Pairwise.nil, by omega, by simp⟩
  · obtain ⟨hnew, hsequence, hsome⟩ := LiveDb.append_new skipped hhas
    rw [hsome]
    refine ⟨⟨_, hnew, rfl⟩, List.pairwise_singleton _ _, by omega, fun seq hseq => ?_⟩
    obtain rfl : seq = db.sequence + skipped + 1 := List.mem_singleton.mp hseq
    omega

/-- **What a delivery appends** is behind what was there. -/
theorem appended_appendAll (f : NumberFormat N) (db : LiveDb) (i : ℕ)
    (inputs : List (LiveEventInput N × ℕ)) :
    Appended db (appendAll f db i inputs).2 (appendAll f db i inputs).1 := by
  induction inputs generalizing db i with
  | nil => exact Appended.refl db
  | cons input inputs ih =>
    exact (appended_append f db input.1 i input.2).trans (ih _ (i + 1))

/-! ## The cursor of a subscriber -/

/-- A subscriber has been sent each row above its cursor, in order and once. -/
structure LiveSubscriber.Sound (db : LiveDb) (sub : LiveSubscriber) : Prop where
  ascending : sub.written.Pairwise (· < ·)
  last : sub.lastSentSeq = sub.written.getLast?.getD sub.connectCursor
  given : sub.lastSentSeq ≤ db.sequence
  complete : ∀ row ∈ db.store.rows, sub.connectCursor < row.seq → row.seq ∈ sub.written

/-- For every subscriber: its frames are in ascending order, and it was sent
once each row that is retained, above its cursor and no later than its last
frame. -/
def CursorSound (s : LiveReceiver) : Prop :=
  ∀ sub ∈ s.subs, sub.written.Pairwise (· < ·) ∧
    ∀ last ∈ sub.written.getLast?, ∀ row ∈ s.db.store.rows,
      sub.connectCursor < row.seq → row.seq ≤ last → sub.written.count row.seq = 1

/-- A delivery that throws has not stored a row before. -/
def NotTorn (f : NumberFormat N) (s : LiveReceiver) : ReceiverAction N → Prop
  | .deliver inputs (some k) _ => (appendAll f s.db 0 (inputs.take k)).2 = []
  | _ => True

/-- Every listener has what its cursor says. -/
def LiveReceiver.Sound (s : LiveReceiver) : Prop := ∀ sub ∈ s.subs, sub.Sound s.db

theorem LiveReceiver.Sound.cursorSound {s : LiveReceiver} (h : s.Sound) : CursorSound s := by
  intro sub hsub
  refine ⟨(h sub hsub).ascending, fun last _ row hrow hlt _ => ?_⟩
  exact List.count_eq_one_of_mem ((h sub hsub).ascending.imp Nat.ne_of_lt)
    ((h sub hsub).complete row hrow hlt)

/-- A step of the table that adds no row leaves a subscriber sound. -/
theorem LiveSubscriber.Sound.mono {db db' : LiveDb} (h : sub.Sound db)
    (hrows : ∀ row ∈ db'.store.rows, row ∈ db.store.rows) (hle : db.sequence ≤ db'.sequence) :
    sub.Sound db' :=
  ⟨h.ascending, h.last, h.given.trans hle, fun row hrow => h.complete row (hrows row hrow)⟩

theorem LiveSubscriber.Sound.sendAll {db db' : LiveDb} (h : sub.Sound db)
    (happended : Appended db seqs db') (hsent : sub.sendAll writes seqs = some sub') :
    sub'.Sound db' := by
  have hnew : ∀ seq ∈ seqs, sub.lastSentSeq < seq := fun seq hseq =>
    lt_of_le_of_lt h.given (happended.bounds seq hseq).1
  obtain ⟨hwritten, hcursor, hlast⟩ := sendAll_eq_some happended.ascending hnew hsent
  have hbelow : ∀ x ∈ sub.written, x ≤ sub.lastSentSeq := fun x hx => by
    rw [h.last]
    cases hget : sub.written.getLast? with
    | none => exact absurd (List.getLast?_eq_none_iff.mp hget) (List.ne_nil_of_mem hx)
    | some last =>
      obtain ⟨init, hinit⟩ := List.getLast?_eq_some_iff.mp hget
      have hasc := h.ascending
      rw [hinit] at hasc hx
      rcases List.mem_append.mp hx with hx | hx
      · exact ((List.pairwise_append.mp hasc).2.2 x hx last (List.mem_singleton_self last)).le
      · exact (List.mem_singleton.mp hx).le
  refine ⟨?_, ?_, ?_, fun row hrow hlt => ?_⟩
  · rw [hwritten]
    exact List.pairwise_append.mpr ⟨h.ascending, happended.ascending,
      fun a ha b hb => lt_of_le_of_lt (hbelow a ha) (hnew b hb)⟩
  · rw [hlast, hwritten, hcursor, List.getLast?_append, h.last]
    cases seqs.getLast? <;> rfl
  · rw [hlast]
    cases hget : seqs.getLast? with
    | none => exact h.given.trans happended.sequence
    | some last => exact (happended.bounds last (List.mem_of_getLast? hget)).2
  · obtain ⟨rows, hrows, hseqs⟩ := happended.rows
    rw [hwritten]
    rw [hrows] at hrow
    rcases List.mem_append.mp hrow with hrow | hrow
    · exact List.mem_append_left _ (h.complete row hrow (hcursor ▸ hlt))
    · refine List.mem_append_right _ ?_
      rw [← hseqs]
      exact List.mem_map_of_mem hrow

theorem maxSeq_le_sequence (db : LiveDb) : db.store.maxSeq ≤ db.sequence :=
  LiveStore.maxSeq_le.mpr db.numbered

/-- A subscriber told to start over is sound: nothing is above its cursor. -/
theorem sound_reset (s : LiveReceiver) : (s.add s.db.store.maxSeq).Sound s.db := by
  refine ⟨List.Pairwise.nil, rfl, maxSeq_le_sequence s.db, fun row hrow hlt => ?_⟩
  have hle := LiveStore.le_maxSeq hrow
  exact absurd (show s.db.store.maxSeq < row.seq from hlt) (not_lt.mpr hle)

/-- So is one that was sent its whole backlog. -/
theorem sound_replay {s : LiveReceiver} {cursor : ℕ} (hle : cursor ≤ s.db.store.maxSeq)
    (h : (s.add cursor).sendAll writes ((s.db.store.above cursor).map (·.seq)) = some sub) :
    sub.Sound s.db := by
  have hasc : ((s.db.store.above cursor).map (·.seq)).Pairwise (· < ·) :=
    List.pairwise_map.mpr (s.db.store.above_ascending cursor)
  have hnew : ∀ seq ∈ (s.db.store.above cursor).map (·.seq), (s.add cursor).lastSentSeq < seq := by
    intro seq hseq
    obtain ⟨row, hrow, rfl⟩ := List.mem_map.mp hseq
    exact (LiveStore.mem_above.mp hrow).2
  obtain ⟨hwritten, hcursor, hlast⟩ := sendAll_eq_some hasc hnew h
  have hwritten : sub.written = (s.db.store.above cursor).map (·.seq) := hwritten
  refine ⟨hwritten ▸ hasc, ?_, ?_, fun row hrow hlt => ?_⟩
  · rw [hlast, hwritten, hcursor]
    rfl
  · rw [hlast]
    cases hget : ((s.db.store.above cursor).map (·.seq)).getLast? with
    | none => exact hle.trans (maxSeq_le_sequence s.db)
    | some last =>
      obtain ⟨row, hrow, rfl⟩ := List.mem_map.mp (List.mem_of_getLast? hget)
      exact s.db.numbered row (LiveStore.mem_above.mp hrow).1
  · rw [hwritten]
    rw [hcursor] at hlt
    exact List.mem_map_of_mem (LiveStore.mem_above.mpr ⟨hrow, hlt⟩)

theorem sound_concat {s : LiveReceiver} (h : s.Sound) {new : List LiveSubscriber}
    (hnew : ∀ sub ∈ new, sub.Sound s.db) :
    LiveReceiver.Sound { s with subs := s.subs ++ new, nextId := s.nextId + 1 } := by
  intro sub hsub
  rcases List.mem_append.mp hsub with hsub | hsub
  · exact h sub hsub
  · exact hnew sub hsub

theorem sound_connect {cfg : ReplayConfig} {s : LiveReceiver} (h : s.Sound) (cursor : ℕ)
    (writes : ℕ → ℕ → Bool) : (s.connect cfg cursor writes).Sound := by
  rw [LiveReceiver.connect]
  split
  · exact h
  · split
    · next hanswer =>
      rw [handleSse_reset hanswer]
      exact sound_concat h fun sub hsub => List.mem_singleton.mp hsub ▸ sound_reset s
    · exact h
    · next hanswer =>
      obtain ⟨rfl, hle⟩ := handleSse_replay hanswer
      exact sound_concat h fun sub hsub => sound_replay hle (Option.mem_toList.mp hsub)

/-- **A step keeps the subscribers sound**, unless it is a delivery that is
torn. -/
theorem liveSound_step {cfg : ReplayConfig} (s : LiveReceiver) (a : ReceiverAction N) (h : s.Sound)
    (hok : NotTorn f s a) : (s.step f cfg a).Sound := by
  cases a with
  | deliver inputs fails writes =>
    cases fails with
    | none =>
      have happended := appended_appendAll f s.db 0 inputs
      have hsubs : (s.step f cfg (.deliver inputs none writes)).subs =
          s.subs.filterMap (LiveSubscriber.sendAll writes (appendAll f s.db 0 inputs).2) :=
        foldl_broadcastLive s.subs
      intro sub' hsub'
      rw [hsubs] at hsub'
      obtain ⟨sub, hsub, hsent⟩ := List.mem_filterMap.mp hsub'
      exact (h sub hsub).sendAll happended hsent
    | some k =>
      have happended := appended_appendAll f s.db 0 (inputs.take k)
      obtain ⟨rows, hrows, hseqs⟩ := happended.rows
      rw [show (appendAll f s.db 0 (inputs.take k)).2 = [] from hok] at hseqs
      obtain rfl := List.map_eq_nil_iff.mp hseqs
      rw [List.append_nil] at hrows
      intro sub hsub
      exact (h sub hsub).mono (fun row hrow => hrows ▸ hrow) happended.sequence
  | connect cursor writes => exact sound_connect h cursor writes
  | drop gone => exact fun sub hsub => h sub (List.mem_of_mem_filter hsub)
  | prune dropped =>
    intro sub hsub
    exact (h sub hsub).mono (fun row hrow => List.mem_of_mem_filter hrow) le_rfl

/-- **The cursor of a subscriber is sound in every state of a run without a
torn delivery.** -/
theorem cursorSound_run (f : NumberFormat N) (cfg : ReplayConfig) (db : LiveDb)
    (actions : List (ReceiverAction N))
    (h : EachStep (LiveReceiver.step f cfg) (NotTorn f) (.start db) actions) :
    Always (LiveReceiver.step f cfg) CursorSound (.start db) actions := by
  have hsound : Always (LiveReceiver.step f cfg) LiveReceiver.Sound (.start db) actions :=
    always_of_eachStep (fun s a hs hok => liveSound_step s a hs hok)
      (fun sub hsub => absurd hsub List.not_mem_nil) h
  rw [always_iff_initial] at hsound ⊢
  exact fun l₁ l₂ heq => (hsound l₁ l₂ heq).cursorSound

namespace TornDelivery

open HalfEmoji

/-- A small receiver. -/
def cfg : ReplayConfig := ⟨100, 1000, 2097152⟩

/-- Another delivery of the provider. -/
def issueClosed : LiveEventInput (Option ℕ) := { issueOpened with eventId := utf16 "d-2" }

/-- A viewer connects; of a delivery of two events the second append throws;
another delivery comes in. -/
def actions : List (ReceiverAction (Option ℕ)) :=
  [.connect 0 fun _ _ => true,
    .deliver [(issueOpened, 0), (issueOpened, 0)] (some 1) fun _ _ => true,
    .deliver [(issueClosed, 0)] none fun _ _ => true]

/-- The state at the end of the run. -/
def reached : LiveReceiver := actions.foldl (LiveReceiver.step wholeNumbers cfg) (.start empty)

theorem reached_subs : reached.subs = [⟨1, 0, 2, [2]⟩] := by decide +kernel

theorem reached_seqs : reached.db.store.rows.map (·.seq) = [1, 2] := by decide +kernel

/-- The viewer is sent the second row and never the first. -/
theorem cursorSound_torn :
    ¬ ∀ (cfg : ReplayConfig) (db : LiveDb) (actions : List (ReceiverAction (Option ℕ))),
      Always (LiveReceiver.step wholeNumbers cfg) CursorSound (.start db) actions := by
  intro h
  have hlast : CursorSound reached := (h cfg empty actions).last
  obtain ⟨-, hcount⟩ := hlast ⟨1, 0, 2, [2]⟩ (by rw [reached_subs]; exact List.mem_singleton_self _)
  obtain ⟨row, hrow, hseq⟩ := List.mem_map.mp
    (show 1 ∈ reached.db.store.rows.map (·.seq) by rw [reached_seqs]; exact List.mem_cons_self)
  have hone := hcount 2 rfl row hrow (hseq ▸ Nat.one_pos) (by omega)
  rw [hseq] at hone
  exact absurd hone (by decide)

/-- Two deliveries that go through, to a viewer that is connected. -/
theorem cursorSound_run_through :
    Always (LiveReceiver.step wholeNumbers cfg) CursorSound (.start empty)
      [.connect 0 fun _ _ => true, .deliver [(issueOpened, 0), (issueOpened, 0)] none fun _ _ => true,
        .deliver [(issueClosed, 0)] none fun _ _ => true] :=
  cursorSound_run wholeNumbers cfg empty _ ⟨trivial, trivial, trivial, trivial⟩

end TornDelivery

end SymphonyBoard
