import Mathlib.Data.List.Pairwise
import Mathlib.Order.Lattice
import SymphonyBoard.Common.Run
/-!
# The Telegram bridge

`streamOnce` and the loop around it in `src/cli/live-telegram-bridge.ts`: a
stream is opened at the cursor file's number, each live frame above the
cursor is posted, and the number of a posted event is written to the file
and only then taken as the cursor. Any step can fail: the stream, a post,
the write of the file.

Between two resets the bridge posts in ascending order, never again what the
file holds, and passes nothing over but what Telegram rejects
(`BridgeDelivers`), as long as its steps meet `StepDelivers`. A reset to a
lower number that cannot be written is the step to fear: the old cursor
stays, and the events of the new store up to it look like old ones.

The cursor file is read back as it was last written; the process started
again is a bridge that opens its next stream.
-/

namespace SymphonyBoard

/-- How `send` ends: the message is taken, dropped as undeliverable, or the
call throws. -/
inductive PostOutcome
  | accepted
  | rejected
  | failed
deriving DecidableEq, Repr

/-- A post that was tried, and whether its number was written to the file. -/
structure BridgePost where
  seq : ℕ
  outcome : PostOutcome
  persists : Bool
deriving DecidableEq, Repr

/-- What happens to the bridge. A live frame names its event's number; where
its data is no event record it is not `readable`. -/
inductive BridgeStep
  | connect
  | live (seq : ℕ) (readable : Bool) (outcome : PostOutcome) (persists : Bool)
  | reset (maxSeq : Option ℕ) (persists : Bool)
  | comment
  | stop
deriving DecidableEq, Repr

/-- The bridge, with what there is to say of it since the last reset: its
posts, how far the open stream has come, the number up to which the reset
left everything out, and the one the file held then. -/
structure TelegramBridge where
  connected : Bool
  cursor : ℕ
  persisted : ℕ
  span : ℕ
  base : ℕ
  floor : ℕ
  seen : ℕ
  posts : List BridgePost
deriving DecidableEq, Repr

namespace TelegramBridge

/-- The file's number, read or seeded from the snapshot. -/
def start (seq : ℕ) : TelegramBridge :=
  { connected := false, cursor := seq, persisted := seq, span := 0, base := seq, floor := seq
    seen := seq, posts := [] }

/-- `writeCursor`, and the cursor taken on success. -/
def advance (s : TelegramBridge) (seq : ℕ) (persists : Bool) : TelegramBridge :=
  if persists then { s with cursor := seq, persisted := seq } else s

/-- The end of a stream: the loop reads the file again. -/
def stop (s : TelegramBridge) : TelegramBridge := { s with connected := false, cursor := s.persisted }

/-- A live frame: skipped when it is no record or not above the cursor, and
posted otherwise; a post that throws ends the stream. -/
def live (s : TelegramBridge) (seq : ℕ) (readable : Bool) (outcome : PostOutcome)
    (persists : Bool) : TelegramBridge :=
  let s := { s with seen := max s.seen seq }
  if readable = false then s
  else if seq ≤ s.cursor then s
  else
    match outcome with
    | .failed => stop { s with posts := s.posts ++ [⟨seq, .failed, false⟩] }
    | outcome => advance { s with posts := s.posts ++ [⟨seq, outcome, persists⟩] } seq persists

/-- A reset: its number is taken in either direction, once it is written. -/
def reset (s : TelegramBridge) (maxSeq : Option ℕ) (persists : Bool) : TelegramBridge :=
  let number := maxSeq.getD s.cursor
  let s := if number = s.cursor then s else s.advance number persists
  { s with
    span := s.span + 1, base := number, floor := s.persisted, seen := number, posts := [] }

/-- One step; frames come on an open stream only. -/
def step (s : TelegramBridge) : BridgeStep → TelegramBridge
  | .connect => { s with connected := true, cursor := s.persisted, seen := s.persisted }
  | .live seq readable outcome persists =>
    if s.connected then s.live seq readable outcome persists else s
  | .reset maxSeq persists => if s.connected then s.reset maxSeq persists else s
  | .comment => s
  | .stop => s.stop

end TelegramBridge

/-! ## What the bridge promises -/

/-- The event was posted, or dropped by Telegram as undeliverable. -/
def TelegramBridge.Handled (s : TelegramBridge) (seq : ℕ) : Prop :=
  ∃ p ∈ s.posts, p.seq = seq ∧ p.outcome ≠ .failed

/-- Every event of the span up to the cursor was handled, but for those the
reset left out. -/
def NothingPassedOver (events : ℕ → ℕ → Prop) (s : TelegramBridge) : Prop :=
  ∀ seq, events s.span seq → s.base < seq → seq ≤ s.cursor → s.Handled seq

/-- **The delivery discipline of a span**, whose events are numbered by
`events`. -/
structure BridgeDelivers (events : ℕ → ℕ → Prop) (s : TelegramBridge) : Prop where
  /-- Posts are in strictly ascending order. -/
  ordered : (s.posts.filter fun p => p.outcome = .accepted).Pairwise fun p q => p.seq < q.seq
  /-- Nothing is passed over but because of a reset or a rejection. -/
  complete : NothingPassedOver events s
  /-- No post is of an event up to a number the file has held. -/
  once : s.posts.Pairwise (fun p q => p.persists = true → p.seq < q.seq) ∧
    ∀ p ∈ s.posts, s.floor < p.seq
  /-- The cursor is the number last written. -/
  durable : s.cursor = s.persisted

/-- The stream serves the events in order: a frame is a repeated one, or of
the next event after those served. -/
def ServedInOrder (events : ℕ → ℕ → Prop) (s : TelegramBridge) : BridgeStep → Prop
  | .live seq _ _ _ => seq ≤ s.seen ∨ ∀ e, events s.span e → s.seen < e → seq ≤ e
  | _ => True

/-- **A step the discipline bears.** A live frame is served in order, is a
record if its event is due, and is not of an event that was posted while its
number could not be written; a reset to a lower number is written. -/
def StepDelivers (events : ℕ → ℕ → Prop) (s : TelegramBridge) : BridgeStep → Prop
  | .live seq readable outcome persists =>
    s.connected = true →
      ServedInOrder events s (.live seq readable outcome persists) ∧
      (readable = true ∨ seq ≤ s.cursor ∨ ¬events s.span seq) ∧
      (readable = true → s.cursor < seq → outcome = .accepted →
        ∀ p ∈ s.posts, p.outcome = .accepted → p.persists = false → p.seq < seq)
  | .reset maxSeq persists =>
    s.connected = true → persists = true ∨ s.cursor ≤ maxSeq.getD s.cursor
  | _ => True

variable {events : ℕ → ℕ → Prop}

/-! ## What every step keeps -/

/-- The cursor is durable, and the posts are above what the file has held. -/
structure BridgeInv (s : TelegramBridge) : Prop where
  durable : s.cursor = s.persisted
  floor_le : s.floor ≤ s.persisted
  ascending : s.posts.Pairwise fun p q => p.persists = true → p.seq < q.seq
  above : ∀ p ∈ s.posts, s.floor < p.seq
  written : ∀ p ∈ s.posts, p.persists = true → p.seq ≤ s.persisted

/-- A post above the cursor keeps the order. -/
theorem BridgeInv.post {s : TelegramBridge} (h : BridgeInv s) {p : BridgePost}
    (hp : s.cursor < p.seq) :
    (s.posts ++ [p]).Pairwise fun p q => p.persists = true → p.seq < q.seq := by
  refine List.pairwise_append.mpr ⟨h.ascending, List.pairwise_singleton _ _, fun a ha b hb hpersists => ?_⟩
  rw [List.mem_singleton.mp hb]
  have hle := h.written a ha hpersists
  have hdurable := h.durable
  omega

/-- A post above the cursor is above what the file held at the reset. -/
theorem BridgeInv.above_post {s : TelegramBridge} (h : BridgeInv s) {p : BridgePost}
    (hp : s.cursor < p.seq) : ∀ q ∈ s.posts ++ [p], s.floor < q.seq := by
  intro q hq
  rcases List.mem_append.mp hq with hq | hq
  · exact h.above q hq
  · rw [List.mem_singleton.mp hq]
    have hfloor := h.floor_le
    have hdurable := h.durable
    omega

theorem BridgeInv.live {s : TelegramBridge} (h : BridgeInv s) (seq : ℕ) (readable : Bool)
    (outcome : PostOutcome) (persists : Bool) : BridgeInv (s.live seq readable outcome persists) := by
  unfold TelegramBridge.live
  dsimp only
  split
  · exact ⟨h.durable, h.floor_le, h.ascending, h.above, h.written⟩
  · split
    · exact ⟨h.durable, h.floor_le, h.ascending, h.above, h.written⟩
    · next hnew =>
      have hnew : s.cursor < seq := not_le.mp hnew
      split
      · refine ⟨rfl, h.floor_le, h.post hnew, h.above_post hnew, fun p hp hpersists => ?_⟩
        rcases List.mem_append.mp hp with hp | hp
        · exact h.written p hp hpersists
        · rw [List.mem_singleton.mp hp] at hpersists
          cases hpersists
      · next o _ =>
        unfold TelegramBridge.advance
        split
        · have hfloor := h.floor_le
          have hdurable := h.durable
          refine ⟨rfl, ?_, h.post hnew, h.above_post hnew, fun p hp hpersists => ?_⟩
          · show s.floor ≤ seq
            omega
          · rcases List.mem_append.mp hp with hp | hp
            · have hle := h.written p hp hpersists
              show p.seq ≤ seq
              omega
            · rw [List.mem_singleton.mp hp]
        · next hnot =>
          refine ⟨h.durable, h.floor_le, h.post hnew, h.above_post hnew, fun p hp hpersists => ?_⟩
          rcases List.mem_append.mp hp with hp | hp
          · exact h.written p hp hpersists
          · rw [List.mem_singleton.mp hp] at hpersists
            exact absurd hpersists hnot

theorem BridgeInv.step {s : TelegramBridge} (h : BridgeInv s) (a : BridgeStep) :
    BridgeInv (s.step a) := by
  cases a with
  | connect => exact ⟨rfl, h.floor_le, h.ascending, h.above, h.written⟩
  | live seq readable outcome persists =>
    rw [TelegramBridge.step]
    split
    · exact h.live seq readable outcome persists
    · exact h
  | reset maxSeq persists =>
    rw [TelegramBridge.step]
    split
    · refine ⟨?_, le_rfl, List.Pairwise.nil, by simp [TelegramBridge.reset],
        by simp [TelegramBridge.reset]⟩
      unfold TelegramBridge.reset TelegramBridge.advance
      dsimp only
      split
      · exact h.durable
      · split
        · rfl
        · exact h.durable
    · exact h
  | comment => exact h
  | stop => exact ⟨rfl, h.floor_le, h.ascending, h.above, h.written⟩

/-! ## The order of the posts -/

/-- The posts that Telegram took are in order. -/
def PostsOrdered (s : TelegramBridge) : Prop :=
  (s.posts.filter fun p => p.outcome = .accepted).Pairwise fun p q => p.seq < q.seq

/-- A post behind the others, above those that Telegram took. -/
theorem postsOrdered_append {posts : List BridgePost} {p : BridgePost}
    (h : (posts.filter fun p => p.outcome = .accepted).Pairwise fun p q => p.seq < q.seq)
    (hp : p.outcome = .accepted → ∀ q ∈ posts, q.outcome = .accepted → q.seq < p.seq) :
    ((posts ++ [p]).filter fun p => p.outcome = .accepted).Pairwise fun p q => p.seq < q.seq := by
  rw [List.filter_append]
  refine List.pairwise_append.mpr ⟨h, (List.pairwise_singleton _ _).filter _, fun a ha b hb => ?_⟩
  obtain ⟨ha, haccepted⟩ := List.mem_filter.mp ha
  obtain ⟨hb, hbaccepted⟩ := List.mem_filter.mp hb
  obtain rfl := List.mem_singleton.mp hb
  exact hp (of_decide_eq_true hbaccepted) a ha (of_decide_eq_true haccepted)

/-- A frame that is not of an unwritten post is above everything posted. -/
theorem BridgeInv.above_accepted {s : TelegramBridge} (h : BridgeInv s) {seq : ℕ}
    (hnew : s.cursor < seq)
    (hunwritten : ∀ p ∈ s.posts, p.outcome = .accepted → p.persists = false → p.seq < seq) :
    ∀ p ∈ s.posts, p.outcome = .accepted → p.seq < seq := by
  intro p hp haccepted
  cases hpersists : p.persists with
  | false => exact hunwritten p hp haccepted hpersists
  | true =>
    have hle := h.written p hp hpersists
    have hdurable := h.durable
    omega

theorem PostsOrdered.live {s : TelegramBridge} (h : PostsOrdered s) (hinv : BridgeInv s) {seq : ℕ}
    {readable : Bool} {outcome : PostOutcome} (persists : Bool)
    (hunwritten : readable = true → s.cursor < seq → outcome = .accepted →
      ∀ p ∈ s.posts, p.outcome = .accepted → p.persists = false → p.seq < seq) :
    PostsOrdered (s.live seq readable outcome persists) := by
  unfold TelegramBridge.live
  dsimp only
  split
  · exact h
  · next hreadable =>
    split
    · exact h
    · next hnew =>
      have hnew : s.cursor < seq := not_le.mp hnew
      have hreadable : readable = true := (Bool.not_eq_false _).mp hreadable
      split
      · exact postsOrdered_append h fun hfailed => by cases hfailed
      · have hposted : ∀ w, PostsOrdered
            { s with seen := max s.seen seq, posts := s.posts ++ [⟨seq, outcome, w⟩] } := fun w =>
          postsOrdered_append h fun haccepted =>
            hinv.above_accepted hnew (hunwritten hreadable hnew haccepted)
        unfold TelegramBridge.advance
        split <;> exact hposted _

theorem PostsOrdered.step {s : TelegramBridge} (h : PostsOrdered s) (hinv : BridgeInv s)
    {a : BridgeStep} (hok : StepDelivers events s a) : PostsOrdered (s.step a) := by
  cases a with
  | connect => exact h
  | live seq readable outcome persists =>
    rw [TelegramBridge.step]
    split
    · next hopen => exact h.live hinv persists (hok hopen).2.2
    · exact h
  | reset maxSeq persists =>
    rw [TelegramBridge.step]
    split
    · exact List.Pairwise.nil
    · exact h
  | comment => exact h
  | stop => exact h

/-! ## What is passed over -/

/-- Everything the span has served is handled, up to the cursor and, on an
open stream, as far as the stream has come. -/
structure BridgeCovers (events : ℕ → ℕ → Prop) (s : TelegramBridge) : Prop where
  toCursor : NothingPassedOver events s
  toSeen : s.connected = true → ∀ e, events s.span e → s.base < e → e ≤ s.seen → s.Handled e

/-- A frame served in order leaves no event out up to its own. -/
theorem BridgeCovers.served {s : TelegramBridge} (h : BridgeCovers events s) (hopen : s.connected = true)
    {seq : ℕ} (horder : seq ≤ s.seen ∨ ∀ e, events s.span e → s.seen < e → seq ≤ e) {e : ℕ}
    (he : events s.span e) (hbase : s.base < e) (hle : e ≤ max s.seen seq) :
    s.Handled e ∨ e = seq := by
  rcases Nat.lt_or_ge s.seen e with hlt | hge
  · right
    rcases horder with hold | hnext
    · omega
    · have := hnext e he hlt
      omega
  · exact .inl (h.toSeen hopen e he hbase hge)

/-- What is handled stays handled as posts are added. -/
theorem TelegramBridge.Handled.mono {s s' : TelegramBridge} {e : ℕ} (h : s.Handled e)
    (hposts : ∀ p ∈ s.posts, p ∈ s'.posts) : s'.Handled e := by
  obtain ⟨p, hp, hseq⟩ := h
  exact ⟨p, hposts p hp, hseq⟩

theorem BridgeCovers.live {s : TelegramBridge} (h : BridgeCovers events s) (hdurable : s.cursor = s.persisted)
    (hopen : s.connected = true) {seq : ℕ} {readable : Bool} (outcome : PostOutcome)
    (persists : Bool)
    (horder : seq ≤ s.seen ∨ ∀ e, events s.span e → s.seen < e → seq ≤ e)
    (hdue : readable = true ∨ seq ≤ s.cursor ∨ ¬events s.span seq) :
    BridgeCovers events (s.live seq readable outcome persists) := by
  have hserved := fun e => h.served hopen horder (e := e)
  unfold TelegramBridge.live
  dsimp only
  split
  · next hreadable =>
    -- the frame is no event record, and its event, if there is one, not due
    refine ⟨h.toCursor, fun _ e he hb hle => ?_⟩
    rcases hserved e he hb hle with hold | rfl
    · exact hold
    · rcases hdue with hread | hold | hnone
      · exact absurd (hreadable.symm.trans hread) Bool.false_ne_true
      · exact h.toCursor e he hb hold
      · exact absurd he hnone
  · split
    · next hold =>
      -- the event is at or below the cursor
      refine ⟨h.toCursor, fun _ e he hb hle => ?_⟩
      rcases hserved e he hb hle with hhandled | rfl
      · exact hhandled
      · exact h.toCursor e he hb hold
    · have hmono : ∀ {o : PostOutcome} {w : Bool} {e : ℕ}, s.Handled e →
          TelegramBridge.Handled
            { s with seen := max s.seen seq, posts := s.posts ++ [⟨seq, o, w⟩] } e := fun he =>
        he.mono fun p hp => List.mem_append_left _ hp
      split
      · -- the post throws, and the stream ends
        refine ⟨fun e he hb hle => hmono (h.toCursor e he hb (hdurable ▸ hle)), fun hclosed => ?_⟩
        cases hclosed
      · next o hnot =>
        have hnew : ∀ {w : Bool} {e : ℕ}, events s.span e → s.base < e → e ≤ max s.seen seq →
            TelegramBridge.Handled
              { s with seen := max s.seen seq, posts := s.posts ++ [⟨seq, outcome, w⟩] } e := by
          intro w e he hb hle
          rcases hserved e he hb hle with hold | rfl
          · exact hmono hold
          · exact ⟨_, List.mem_append_right _ (List.mem_singleton_self _), rfl, hnot⟩
        unfold TelegramBridge.advance
        split
        · exact ⟨fun e he hb hle => hnew he hb (hle.trans (le_max_right _ _)),
            fun _ e he hb hle => hnew he hb hle⟩
        · exact ⟨fun e he hb hle => hmono (h.toCursor e he hb hle),
            fun _ e he hb hle => hnew he hb hle⟩

/-- A reset that is written, or to a higher number, leaves the cursor at its
number or below. -/
theorem TelegramBridge.cursor_reset_le {s : TelegramBridge} {maxSeq : Option ℕ} {persists : Bool}
    (h : persists = true ∨ s.cursor ≤ maxSeq.getD s.cursor) :
    (s.reset maxSeq persists).cursor ≤ (s.reset maxSeq persists).base := by
  unfold TelegramBridge.reset TelegramBridge.advance
  dsimp only
  split
  · next heq => exact heq.ge
  · split
    · exact le_rfl
    · next hnot => exact h.resolve_left hnot

theorem BridgeCovers.step {s : TelegramBridge} (h : BridgeCovers events s) (hinv : BridgeInv s)
    {a : BridgeStep} (hok : StepDelivers events s a) : BridgeCovers events (s.step a) := by
  cases a with
  | connect =>
    exact ⟨fun e he hb hle => h.toCursor e he hb (hinv.durable ▸ hle),
      fun _ e he hb hle => h.toCursor e he hb (hinv.durable ▸ hle)⟩
  | live seq readable outcome persists =>
    rw [TelegramBridge.step]
    split
    · next hopen =>
      obtain ⟨horder, hdue, -⟩ := hok hopen
      exact h.live hinv.durable hopen outcome persists horder hdue
    · exact h
  | reset maxSeq persists =>
    rw [TelegramBridge.step]
    split
    · next hopen =>
      -- the span begins above the number of the reset
      have hle := TelegramBridge.cursor_reset_le (hok hopen)
      exact ⟨fun e _ hb hcursor => absurd (lt_of_lt_of_le hb hcursor) (not_lt.mpr hle),
        fun _ e _ hb hseen => absurd hb (not_lt.mpr hseen)⟩
    · exact h
  | comment => exact h
  | stop =>
    refine ⟨fun e he hb hle => h.toCursor e he hb (hinv.durable ▸ hle), fun hclosed => ?_⟩
    cases hclosed

/-- **The bridge keeps its discipline over every run** whose steps it
bears. -/
theorem bridge_delivers (events : ℕ → ℕ → Prop) (seq : ℕ) (steps : List BridgeStep)
    (h : EachStep TelegramBridge.step (StepDelivers events) (.start seq) steps) :
    Always TelegramBridge.step (BridgeDelivers events) (.start seq) steps := by
  have hstart : BridgeInv (.start seq) :=
    ⟨rfl, le_rfl, List.Pairwise.nil, fun p hp => absurd hp List.not_mem_nil,
      fun p hp => absurd hp List.not_mem_nil⟩
  have hall := always_of_eachStep
    (p := fun s => BridgeInv s ∧ PostsOrdered s ∧ BridgeCovers events s)
    (fun s a h hok => ⟨h.1.step a, h.2.1.step h.1 hok, h.2.2.step h.1 hok⟩)
    ⟨hstart, List.Pairwise.nil, fun e _ hb hle => absurd hb (not_lt.mpr hle),
      fun hclosed => Bool.noConfusion hclosed⟩ h
  rw [always_iff_initial] at hall ⊢
  intro l₁ l₂ heq
  obtain ⟨hinv, hordered, hcovers⟩ := hall l₁ l₂ heq
  exact ⟨hordered, hcovers.toCursor, ⟨hinv.ascending, hinv.above⟩, hinv.durable⟩

namespace RecreatedStore

/-- The events of a store, of the one that is replaced and of the next. -/
def threeEvents (_span seq : ℕ) : Prop := 1 ≤ seq ∧ seq ≤ 3

/-- The cursor has come to 9 with the old store. The new one has one event,
and the write of its number fails; event 2 comes after that. -/
def staleSteps : List BridgeStep := [.connect, .reset (some 1) false, .live 2 true .accepted true]

/-- Event 2 is taken for an old one, and never posted. -/
theorem not_bridgeDelivers :
    ¬∀ (events : ℕ → ℕ → Prop) (seq : ℕ) (steps : List BridgeStep),
      EachStep TelegramBridge.step (ServedInOrder events) (.start seq) steps →
        Always TelegramBridge.step (BridgeDelivers events) (.start seq) steps := by
  intro h
  have hlast := (h threeEvents 9 staleSteps ⟨trivial, trivial, .inr fun e _ hlt => hlt, trivial⟩).last
  obtain ⟨p, hp, -⟩ := hlast.complete 2 ⟨by decide, by decide⟩ (by decide) (by decide)
  have hposts : (staleSteps.foldl TelegramBridge.step (.start 9)).posts = [] := by decide
  rw [hposts] at hp
  exact absurd hp List.not_mem_nil

/-- A post that throws, a repeated frame, a post whose number is not written,
a rejected one, and a store that is replaced. -/
def steps : List BridgeStep :=
  [.connect, .live 1 true .failed true, .connect, .live 1 true .accepted true,
    .live 1 true .accepted true, .live 2 true .accepted false, .live 3 true .rejected true,
    .stop, .connect, .reset (some 1) true, .live 2 true .accepted true]

theorem bridge_delivers_steps :
    Always TelegramBridge.step (BridgeDelivers threeEvents) (.start 0) steps := by
  refine bridge_delivers threeEvents 0 steps ⟨trivial, fun _ => ⟨.inr ?_, .inl rfl, ?_⟩, trivial,
    fun _ => ⟨.inr ?_, .inl rfl, ?_⟩, fun _ => ⟨.inl (by decide), .inl rfl, ?_⟩,
    fun _ => ⟨.inr ?_, .inl rfl, ?_⟩, fun _ => ⟨.inr ?_, .inl rfl, ?_⟩, trivial, trivial,
    fun _ => .inl rfl, fun _ => ⟨.inr ?_, .inl rfl, ?_⟩, trivial⟩
  all_goals first
    | exact fun e he hlt => hlt
    | decide

end RecreatedStore

end SymphonyBoard
