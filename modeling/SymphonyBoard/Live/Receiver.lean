import Mathlib.Data.List.Range
import SymphonyBoard.Live.Columns
/-!
# Resuming the live stream

`handleSse` of `src/live/receiver.ts`: what a connection is sent first, by
the cursor it comes with. It is told to start over when its cursor is ahead
of the store, when the first row above the cursor is not the next number,
and when more rows are above it than are replayed. Otherwise it gets them
in order, all at once or, where they are over the byte budget, a first part
of them and the end of the stream; a client then comes back with the last
number it got (`resume`).

`resume_delivers_iff` is about a whole history of the table in which no row
above the cursor is pruned. A client gets every row above it that was stored
then or since exactly where they are not more than the replay limit and each
reply it comes back for begins with the next number (`NumberedOn`). A number
skipped inside a reply does no harm; one skipped where a reply begins is
taken for a pruned row, and the client is told to start over.
-/

namespace SymphonyBoard

variable {E : Type}

/-- The budgets of the receiver's streams. -/
structure ReplayConfig where
  maxConnections : ℕ
  replayLimit : ℕ
  replayMaxBytes : ℕ

/-- Why a client is told to start over. -/
inductive ResetReason
  | staleCursor
  | gap
deriving DecidableEq

/-- What a connection is sent first. -/
inductive SseAnswer (E : Type)
  /-- The `reset` frame, with the highest row id. -/
  | reset (reason : ResetReason) (maxSeq : ℕ)
  /-- The first part of the backlog, and the stream ends. -/
  | cut (rows : List (LiveRow E))
  /-- The backlog, and the stream stays open. -/
  | replay (rows : List (LiveRow E))

/-- `handleSse`, once the cursor is read off the request. -/
def handleSse (cfg : ReplayConfig) (store : LiveStore E) (cursor : ℕ) : SseAnswer E :=
  let maxSeq := store.maxSeq
  if maxSeq < cursor then .reset .staleCursor maxSeq
  else
    let backlog := store.page
      { order := .asc, limit := cfg.replayLimit, maxBytes := cfg.replayMaxBytes
        after := some cursor, before := none }
    if ∃ first ∈ backlog.1.head?, cursor + 1 < first.seq then .reset .gap maxSeq
    else if cfg.replayLimit < backlog.2 then .reset .gap maxSeq
    else if backlog.1.length < backlog.2 then .cut backlog.1
    else .replay backlog.1

/-- The rows sent to a client that comes back with the last number it got
each time its stream ends after a part, at most `n` times. -/
def resume (cfg : ReplayConfig) (store : LiveStore E) : ℕ → ℕ → List (LiveRow E)
  | 0, _ => []
  | n + 1, cursor =>
    match handleSse cfg store cursor with
    | .reset _ _ => []
    | .cut rows => rows ++ rows.getLast?.elim [] fun last => resume cfg store n last.seq
    | .replay rows => rows

namespace LiveStore

/-- The rows above a cursor, in order. -/
def above (store : LiveStore E) (cursor : ℕ) : List (LiveRow E) :=
  store.matching .asc (some cursor) none

theorem mem_above {store : LiveStore E} {cursor : ℕ} {row : LiveRow E} :
    row ∈ store.above cursor ↔ row ∈ store.rows ∧ cursor < row.seq := by
  simp [above, mem_matching]

theorem above_ascending (store : LiveStore E) (cursor : ℕ) :
    (store.above cursor).Pairwise fun a b => a.seq < b.seq :=
  List.Pairwise.filter _ store.ascending

/-- The rows above a later cursor. -/
theorem above_filter (store : LiveStore E) {c d : ℕ} (h : c ≤ d) :
    store.above d = (store.above c).filter fun row => d < row.seq := by
  unfold above matching
  rw [List.filter_filter]
  refine List.filter_congr fun row _ => ?_
  simp only [Option.mem_def, Option.some.injEq, forall_eq', reduceCtorEq, false_imp_iff,
    implies_true, decide_true, Bool.and_true]
  by_cases hd : d < row.seq
  · simp [hd, lt_of_le_of_lt h hd]
  · simp [hd]

end LiveStore

open LiveStore

/-! ## One answer -/

variable {cfg : ReplayConfig} {store : LiveStore E} {cursor : ℕ}

/-- **Too many rows above the cursor: start over.** -/
theorem handleSse_overLimit (h : cfg.replayLimit < (store.above cursor).length) :
    handleSse cfg store cursor = .reset .gap store.maxSeq := by
  obtain ⟨row, hrow⟩ := List.exists_mem_of_length_pos (by omega : 0 < (store.above cursor).length)
  obtain ⟨hstored, hlt⟩ := mem_above.mp hrow
  have hmax := LiveStore.le_maxSeq hstored
  rw [handleSse, if_neg (by omega), store.page_eq]
  simp only [show store.matching .asc (some cursor) none = store.above cursor from rfl]
  rw [if_pos (show cfg.replayLimit < min (cfg.replayLimit + 1) (store.above cursor).length by omega),
    ite_self]

/-- **A number left out at the start of the reply: start over.** -/
theorem handleSse_hole {first : LiveRow E} {rest : List (LiveRow E)}
    (hrows : store.above cursor = first :: rest) (hfirst : first.seq ≠ cursor + 1) :
    handleSse cfg store cursor = .reset .gap store.maxSeq := by
  by_cases hlimit : cfg.replayLimit < (store.above cursor).length
  · exact handleSse_overLimit hlimit
  · obtain ⟨hstored, hlt⟩ := mem_above.mp (hrows ▸ List.mem_cons_self : first ∈ store.above cursor)
    have hmax := LiveStore.le_maxSeq hstored
    rw [handleSse, if_neg (by omega), store.page_eq]
    simp only [show store.matching .asc (some cursor) none = store.above cursor from rfl]
    -- the first row is taken whatever it weighs
    have hpos : 0 < takeFitting cfg.replayMaxBytes 0 0 ((store.above cursor).take cfg.replayLimit) := by
      refine LiveStore.takeFitting_pos cfg.replayMaxBytes fun hnil => ?_
      rw [hrows] at hnil hlimit
      rcases List.take_eq_nil_iff.mp hnil with h | h
      · rw [h, List.length_cons] at hlimit
        omega
      · cases h
    refine if_pos ⟨first, ?_, by omega⟩
    rw [List.head?_take, if_neg (by omega), hrows]
    rfl

/-- Nothing above the cursor: nothing is sent, and no gap is reported. -/
theorem handleSse_nil (hnil : store.above cursor = []) :
    handleSse cfg store cursor = .replay [] ∨
      handleSse cfg store cursor = .reset .staleCursor store.maxSeq := by
  rw [handleSse]
  by_cases hstale : store.maxSeq < cursor
  · exact .inr (if_pos hstale)
  · rw [if_neg hstale, store.page_eq]
    simp only [show store.matching .asc (some cursor) none = store.above cursor from rfl, hnil]
    left
    simp

/-- **Rows that go on from the cursor, within the limit**: as many of them
as fit the byte budget, at least one. -/
theorem handleSse_within {first : LiveRow E} {rest : List (LiveRow E)}
    (hrows : store.above cursor = first :: rest)
    (hlimit : (first :: rest).length ≤ cfg.replayLimit) (hfirst : first.seq = cursor + 1) :
    let k := takeFitting cfg.replayMaxBytes 0 0 (first :: rest)
    0 < k ∧ k ≤ (first :: rest).length ∧
      handleSse cfg store cursor = if k < (first :: rest).length then .cut ((first :: rest).take k)
        else .replay (first :: rest) := by
  intro k
  have hpos : 0 < k := LiveStore.takeFitting_pos cfg.replayMaxBytes (List.cons_ne_nil _ _)
  obtain ⟨-, hbound⟩ := takeFitting_bounds cfg.replayMaxBytes 0 0 (first :: rest)
  rw [Nat.zero_add] at hbound
  refine ⟨hpos, hbound, ?_⟩
  obtain ⟨hstored, hlt⟩ := mem_above.mp (hrows ▸ List.mem_cons_self : first ∈ store.above cursor)
  have hmax := LiveStore.le_maxSeq hstored
  rw [handleSse, if_neg (by omega), store.page_eq]
  simp only [show store.matching .asc (some cursor) none = store.above cursor from rfl, hrows,
    List.take_of_length_le hlimit]
  change (if ∃ row ∈ ((first :: rest).take k).head?, cursor + 1 < row.seq then _ else _) = _
  have hnext : ¬∃ row ∈ ((first :: rest).take k).head?, cursor + 1 < row.seq := by
    rintro ⟨row, hrow, hgap⟩
    rw [List.head?_take, if_neg (by omega)] at hrow
    obtain rfl := Option.some.inj hrow
    omega
  rw [if_neg hnext, if_neg (by omega), min_eq_right (by omega), List.length_take,
    min_eq_left hbound]
  split
  · rfl
  · next hall => rw [List.take_of_length_le (not_lt.mp hall)]

theorem handleSse_reset {reason : ResetReason} {maxSeq : ℕ}
    (h : handleSse cfg store cursor = .reset reason maxSeq) : maxSeq = store.maxSeq := by
  rw [handleSse] at h
  split at h
  · cases h
    rfl
  · dsimp only at h
    split at h
    · cases h
      rfl
    · split at h
      · cases h
        rfl
      · split at h <;> cases h

/-- A stream that stays open has been sent all there is above its cursor. -/
theorem handleSse_replay {rows : List (LiveRow E)} (h : handleSse cfg store cursor = .replay rows) :
    rows = store.above cursor ∧ cursor ≤ store.maxSeq := by
  rw [handleSse, store.page_eq] at h
  simp only [show store.matching .asc (some cursor) none = store.above cursor from rfl] at h
  split at h
  · cases h
  · next hstale =>
    split at h
    · cases h
    · split at h
      · cases h
      · next hlimit =>
        split at h
        · cases h
        · next hall =>
          obtain rfl := SseAnswer.replay.inj h
          rw [List.length_take] at hall
          exact ⟨List.take_of_length_le (by omega), by omega⟩

/-! ## Coming back until everything is there -/

/-- The replies a client comes back for each begin with the number after the
last one it got: the rows that fit the byte budget are one reply, what is
left of them the next. -/
inductive NumberedOn (maxBytes : ℕ) : ℕ → List (LiveRow E) → Prop
  | nil (cursor : ℕ) : NumberedOn maxBytes cursor []
  | reply {cursor : ℕ} {first last : LiveRow E} {rest : List (LiveRow E)}
      (next : first.seq = cursor + 1)
      (sent : last ∈ ((first :: rest).take (takeFitting maxBytes 0 0 (first :: rest))).getLast?)
      (later : NumberedOn maxBytes last.seq
        ((first :: rest).drop (takeFitting maxBytes 0 0 (first :: rest)))) :
      NumberedOn maxBytes cursor (first :: rest)

/-- What is above the last of the first rows is the rest of them. -/
theorem above_getLast {k : ℕ} {last : LiveRow E}
    (hlast : last ∈ ((store.above cursor).take k).getLast?) :
    store.above last.seq = (store.above cursor).drop k := by
  have hmem : last ∈ (store.above cursor).take k := List.mem_of_getLast? hlast
  have hcursor : cursor < last.seq := (mem_above.mp (List.mem_of_mem_take hmem)).2
  have hasc := store.above_ascending cursor
  rw [store.above_filter hcursor.le]
  conv_lhs => rw [← List.take_append_drop k (store.above cursor)]
  rw [← List.take_append_drop k (store.above cursor)] at hasc
  obtain ⟨htake, -, hcross⟩ := List.pairwise_append.mp hasc
  have hsent : ((store.above cursor).take k).filter (fun row => last.seq < row.seq) = [] := by
    obtain ⟨before, hbefore⟩ := List.getLast?_eq_some_iff.mp hlast
    refine List.filter_eq_nil_iff.mpr fun row hrow => ?_
    rw [hbefore] at htake hrow
    rcases List.mem_append.mp hrow with hrow | hrow
    · have hlt := (List.pairwise_append.mp htake).2.2 row hrow last (List.mem_singleton_self last)
      simp only [decide_eq_true_eq]
      omega
    · rw [List.mem_singleton.mp hrow]
      simp
  have hleft : ((store.above cursor).drop k).filter (fun row => last.seq < row.seq) =
      (store.above cursor).drop k :=
    List.filter_eq_self.mpr fun row hrow => decide_eq_true (hcross last hmem row hrow)
  rw [List.filter_append, hsent, hleft, List.nil_append]

/-- A reply that begins with the next number leaves the rest to the later
ones. -/
theorem numberedOn_cons_iff {maxBytes : ℕ} {first last : LiveRow E} {rest : List (LiveRow E)}
    (next : first.seq = cursor + 1)
    (sent : last ∈ ((first :: rest).take (takeFitting maxBytes 0 0 (first :: rest))).getLast?) :
    NumberedOn maxBytes cursor (first :: rest) ↔
      NumberedOn maxBytes last.seq
        ((first :: rest).drop (takeFitting maxBytes 0 0 (first :: rest))) := by
  refine ⟨fun h => ?_, fun h => .reply next sent h⟩
  cases h with
  | reply _ sent' later =>
    obtain rfl := Option.some.inj (Eq.trans (Eq.symm sent) sent')
    exact later

/-- **All rows above the cursor arrive** exactly where they are within the
limit and the replies are numbered on. -/
theorem resume_eq_above_iff (cfg : ReplayConfig) (store : LiveStore E) (n cursor : ℕ)
    (hn : (store.above cursor).length < n) :
    resume cfg store n cursor = store.above cursor ↔
      (store.above cursor).length ≤ cfg.replayLimit ∧
        NumberedOn cfg.replayMaxBytes cursor (store.above cursor) := by
  induction n generalizing cursor with
  | zero => omega
  | succ n ih =>
    rw [resume]
    cases hrows : store.above cursor with
    | nil =>
      refine iff_of_true ?_ ⟨Nat.zero_le _, .nil cursor⟩
      have hanswer : handleSse cfg store cursor = .replay [] ∨
          handleSse cfg store cursor = .reset .staleCursor store.maxSeq := handleSse_nil hrows
      rcases hanswer with h | h <;> rw [h]
    | cons first rest =>
      rw [hrows] at hn
      -- the three answers: a reset over the limit, a reset at a hole, a part of the rows
      by_cases hlimit : (first :: rest).length ≤ cfg.replayLimit
      · by_cases hfirst : first.seq = cursor + 1
        · obtain ⟨hpos, hle, hanswer⟩ := handleSse_within hrows hlimit hfirst
          obtain ⟨last, hlast⟩ : ∃ last, ((first :: rest).take
              (takeFitting cfg.replayMaxBytes 0 0 (first :: rest))).getLast? = some last := by
            refine Option.ne_none_iff_exists'.mp fun h => ?_
            rcases List.take_eq_nil_iff.mp (List.getLast?_eq_none_iff.mp h) with h | h
            · omega
            · cases h
          rw [hanswer, numberedOn_cons_iff hfirst hlast]
          generalize takeFitting cfg.replayMaxBytes 0 0 (first :: rest) = k at *
          have hleft : store.above last.seq = (first :: rest).drop k := by
            rw [← hrows] at hlast ⊢
            exact above_getLast hlast
          by_cases hall : k < (first :: rest).length
          · -- the client comes back with the last number of the part
            have hlen : (store.above last.seq).length = (first :: rest).length - k := by
              rw [hleft, List.length_drop]
            have hlater := ih last.seq (by omega)
            rw [hleft] at hlater
            rw [if_pos hall]
            simp only [hlast, Option.elim_some]
            conv_lhs => rhs; rw [← List.take_append_drop k (first :: rest)]
            rw [List.append_right_inj, hlater, List.length_drop]
            exact and_congr_left fun _ => iff_of_true (by omega) hlimit
          · rw [if_neg hall, List.drop_of_length_le (not_lt.mp hall)]
            exact iff_of_true rfl ⟨hlimit, .nil _⟩
        · rw [handleSse_hole hrows hfirst]
          refine iff_of_false (List.cons_ne_nil _ _).symm fun h => ?_
          cases h.2 with
          | reply next _ _ => exact hfirst next
      · rw [handleSse_overLimit (hrows ▸ not_le.mp hlimit)]
        exact iff_of_false (List.cons_ne_nil _ _).symm fun h => hlimit h.1

/-! ## Over a history -/

variable {N : Type} {f : NumberFormat N}

/-- No row above the cursor is pruned. -/
def KeepsAbove (cursor : ℕ) (db : LiveDb) : LiveOp N → Prop
  | .append _ _ _ => True
  | .prune dropped => ∀ row ∈ db.store.above cursor, dropped row = false

/-- A step that prunes no row above the cursor keeps all of them. -/
theorem above_step {db : LiveDb} {op : LiveOp N} (h : KeepsAbove cursor db op)
    {row : LiveRow LiveColumns} (hrow : row ∈ db.store.above cursor) :
    row ∈ (db.step f op).store.above cursor := by
  obtain ⟨hmem, hlt⟩ := mem_above.mp hrow
  refine mem_above.mpr ⟨?_, hlt⟩
  cases op with
  | append input ordinal skipped =>
    show row ∈ (db.append f input ordinal skipped).1.store.rows
    rw [LiveDb.append]
    split
    · exact hmem
    · exact List.mem_append_left _ hmem
  | prune dropped =>
    refine List.mem_filter.mpr ⟨hmem, ?_⟩
    rw [h row hrow]
    rfl

theorem above_foldl {db : LiveDb} {ops : List (LiveOp N)}
    (h : EachStep (LiveDb.step f) (KeepsAbove cursor) db ops) {row : LiveRow LiveColumns}
    (hrow : row ∈ db.store.above cursor) :
    row ∈ (ops.foldl (LiveDb.step f) db).store.above cursor := by
  induction ops generalizing db with
  | nil => exact hrow
  | cons op ops ih => exact ih h.2 (above_step h.1 hrow)

/-- The cursor of a client: the head of the store at some time, which a
snapshot and a `reset` frame name, or the number of a row. -/
def HandedOut (db : LiveDb) (cursor : ℕ) : Prop :=
  cursor = db.store.maxSeq ∨ ∃ row ∈ db.store.rows, row.seq = cursor

/-- **What a reconnect promises**: every row above the cursor arrives, and no
reset passes one of them over. -/
structure ResumeLosesNothing (cfg : ReplayConfig) (store : LiveStore E) (cursor : ℕ) : Prop where
  delivers : ∀ n, (store.above cursor).length < n →
    resume cfg store n cursor = store.above cursor
  notSkipped : ∀ maxSeq, handleSse cfg store cursor = .reset .gap maxSeq → store.above cursor = []

/-- The rows above the cursor arrive whole, or are not promised at all: a
reset delivers none of them. -/
theorem resumeLosesNothing_iff (cfg : ReplayConfig) (store : LiveStore E) (cursor : ℕ) :
    ResumeLosesNothing cfg store cursor ↔
      (store.above cursor).length ≤ cfg.replayLimit ∧
        NumberedOn cfg.replayMaxBytes cursor (store.above cursor) := by
  constructor
  · intro h
    exact (resume_eq_above_iff cfg store _ cursor (Nat.lt_succ_self _)).mp
      (h.delivers _ (Nat.lt_succ_self _))
  · intro h
    refine ⟨fun n hn => (resume_eq_above_iff cfg store n cursor hn).mpr h, fun maxSeq hreset => ?_⟩
    have hall := (resume_eq_above_iff cfg store _ cursor (Nat.lt_succ_self _)).mpr h
    rw [resume, hreset] at hall
    exact hall.symm

/-- **Resuming over a history that prunes no row above the cursor.** Every
row above it, whenever stored, is still there; and a reconnect keeps its
promise exactly where they are within the replay limit and the replies are
numbered on. -/
theorem resume_delivers_iff (f : NumberFormat N) (cfg : ReplayConfig) (db : LiveDb)
    (ops : List (LiveOp N)) (cursor : ℕ)
    (hkept : EachStep (LiveDb.step f) (KeepsAbove cursor) db ops) :
    let db' := ops.foldl (LiveDb.step f) db
    (∀ ops₁ ops₂, ops = ops₁ ++ ops₂ →
      ∀ row ∈ (ops₁.foldl (LiveDb.step f) db).store.rows, cursor < row.seq →
        row ∈ db'.store.above cursor) ∧
    (ResumeLosesNothing cfg db'.store cursor ↔
      (db'.store.above cursor).length ≤ cfg.replayLimit ∧
        NumberedOn cfg.replayMaxBytes cursor (db'.store.above cursor)) := by
  intro db'
  refine ⟨?_, resumeLosesNothing_iff cfg db'.store cursor⟩
  rintro ops₁ ops₂ rfl row hrow hlt
  have hrest : EachStep (LiveDb.step f) (KeepsAbove cursor)
      (ops₁.foldl (LiveDb.step f) db) ops₂ := by
    clear hrow
    induction ops₁ generalizing db with
    | nil => exact hkept
    | cons op ops₁ ih => exact ih _ hkept.2
  show row ∈ ((ops₁ ++ ops₂).foldl (LiveDb.step f) db).store.above cursor
  rw [List.foldl_append]
  exact above_foldl hrest (mem_above.mpr ⟨hrow, hlt⟩)

namespace Redelivered

open HalfEmoji

/-- One event is stored. -/
def before : LiveDb := LiveDb.step wholeNumbers empty (.append issueOpened 0 0)

/-- A second event, its redelivery, which uses up a number, a third event;
the first one is pruned. -/
def ops : List (LiveOp (Option ℕ)) :=
  [.append issueOpened 1 0, .append issueOpened 1 1, .append issueOpened 2 0,
    .prune fun row => row.seq = 1]

/-- The table at the end. -/
def after : LiveDb := ops.foldl (LiveDb.step wholeNumbers) before

theorem above_after : (after.store.above 1).map (fun row => (row.seq, row.bytes)) =
    [(2, 8), (4, 8)] := by decide +kernel

theorem handedOut : HandedOut before 1 := by
  left
  decide +kernel

theorem keepsAbove : EachStep (LiveDb.step wholeNumbers) (KeepsAbove 1) before ops := by
  refine ⟨trivial, trivial, trivial, fun row hrow => ?_, trivial⟩
  have hlt := (mem_above.mp hrow).2
  exact decide_eq_false (by omega)

/-- The byte budget takes one row at a time: the client comes back with the
number 2, and the unused number 3 is taken for a pruned row. -/
theorem not_resumeLosesNothing :
    ¬∀ (cfg : ReplayConfig) (db : LiveDb) (ops : List (LiveOp (Option ℕ))) (cursor : ℕ),
      HandedOut db cursor → EachStep (LiveDb.step wholeNumbers) (KeepsAbove cursor) db ops →
        ResumeLosesNothing cfg (ops.foldl (LiveDb.step wholeNumbers) db).store cursor := by
  intro h
  have hall : resume ⟨100, 1000, 4096⟩ after.store 3 1 = after.store.above 1 := by
    refine (h ⟨100, 1000, 4096⟩ before ops 1 handedOut keepsAbove).delivers 3 ?_
    show (after.store.above 1).length < 3
    rw [← List.length_map, above_after]
    decide
  have hsent : (resume ⟨100, 1000, 4096⟩ after.store 3 1).map (fun row => (row.seq, row.bytes)) =
      [(2, 8)] := by decide +kernel
  rw [hall, above_after] at hsent
  exact absurd hsent (by decide)

/-- Where both rows fit one reply, the number left out between them does no
harm. -/
theorem resume_delivers_after : ResumeLosesNothing ⟨100, 1000, 8192⟩ after.store 1 := by
  refine (resume_delivers_iff wholeNumbers ⟨100, 1000, 8192⟩ before ops 1 keepsAbove).2.mpr ⟨?_, ?_⟩
  · show (after.store.above 1).length ≤ 1000
    rw [← List.length_map, above_after]
    decide
  · show NumberedOn 8192 1 (after.store.above 1)
    obtain ⟨a, rest, hrows, ha, hrest⟩ := List.map_eq_cons_iff.mp above_after
    obtain ⟨b, rest, rfl, hb, hnil⟩ := List.map_eq_cons_iff.mp hrest
    obtain rfl := List.map_eq_nil_iff.mp hnil
    obtain ⟨haseq, habytes⟩ := Prod.mk.inj ha
    obtain ⟨hbseq, hbbytes⟩ := Prod.mk.inj hb
    have htake : takeFitting 8192 0 0 [a, b] = 2 := by
      simp [takeFitting, rowOverheadBytes, habytes, hbbytes]
    rw [hrows]
    have hsent : b ∈ ([a, b].take (takeFitting 8192 0 0 [a, b])).getLast? := by
      rw [htake]
      rfl
    refine .reply (by omega) hsent ?_
    rw [htake]
    exact .nil _

end Redelivered

end SymphonyBoard
