import SymphonyBoard.Common.Compare
import SymphonyBoard.Db.Store
/-!
# The order of the live review threads

`listLiveReviewThreads` of the two drivers, over the one table both write
alike, and `reviewThreadsForItems` of `src/contract/build.ts`, which emits
the threads of the emitted items. SQLite takes a null for the least value
and the Postgres query says `NULLS LAST`, so ascending keys put their nulls
at opposite ends. `ordersAgree_iff` says when that shows.
-/

namespace SymphonyBoard

variable {P : Type}

/-! ## The query -/

/-- Where a driver's ascending keys put their nulls. -/
def Driver.ascendingNulls : Driver → Nulls
  | .sqlite => .first
  | .postgres => .last

/-- The order of booleans: `false` first. -/
def boolOrder : Bool → Bool → Ordering := instOrdBool.compare

/-- The order of numbers. -/
def numberOrder : Nat → Nat → Ordering := instOrdNat.compare

/-- Text by code points: SQLite's `BINARY` and Postgres's `C` collation. -/
def textOrder : String → String → Ordering := String.compare

/-- The `ORDER BY` of the query. Both dialects put the nulls of its one
descending key last. -/
def reviewThreadOrder (driver : Driver) : ReviewThreadRow → ReviewThreadRow → Ordering :=
  compareLex (on boolOrder (·.thread.isResolved)) <|
  compareLex (on textOrder (·.thread.sourceId.val)) <|
  compareLex (on (withNulls driver.ascendingNulls textOrder) (·.thread.projectPath)) <|
  compareLex (on (withNulls .last fun a b => numberOrder b a) (·.thread.targetIid)) <|
  compareLex (on (withNulls driver.ascendingNulls textOrder) (·.thread.path)) <|
  compareLex (on (withNulls driver.ascendingNulls numberOrder) (·.thread.line)) <|
    on textOrder (·.thread.externalId)

namespace Store

/-- The threads that are not deleted. -/
def liveReviewThreads (s : Store P) : List ReviewThreadRow :=
  s.reviewThreads.values.filter fun r => r.deletedAt.isNone

/-- `listLiveReviewThreads`, in the order of the driver's query. -/
def listLiveReviewThreads (s : Store P) : List ReviewThreadRow :=
  sortBy (reviewThreadOrder s.driver) s.liveReviewThreads

end Store

/-! ## The emitted threads -/

/-- A thread, as the contract has it. -/
structure ReviewThreadDTO where
  id : Ref
  thread : CanonicalReviewThread
  targetRef : Ref
  lastSeenAt : String

/-- The row with its references. The comments come back from JSON as they
went in. -/
def toReviewThreadDTO (row : ReviewThreadRow) : ReviewThreadDTO :=
  { id := refOf row.thread.sourceId row.thread.externalId, thread := row.thread,
    targetRef := refOfEndpoint row.thread.target, lastSeenAt := row.lastSeenAt }

/-- The contract's own order. `localeCompare` is the runtime's. -/
def reviewThreadDTOOrder (localeCompare : String → String → Ordering) :
    ReviewThreadDTO → ReviewThreadDTO → Ordering :=
  compareLex (on boolOrder (·.thread.isResolved)) <|
  compareLex (on localeCompare fun t => t.thread.projectPath.getD "") <|
  compareLex (on (fun a b => numberOrder b a) fun t => t.thread.targetIid.getD 0) <|
  compareLex (on localeCompare fun t => t.thread.path.getD "") <|
    on (fun a b => localeCompare b a) (·.lastSeenAt)

/-- The threads of the emitted items. The sort is stable, so ties come out
in the order the driver returned them. -/
def reviewThreadsForItems (localeCompare : String → String → Ordering) (items : List Ref)
    (rows : List ReviewThreadDTO) : List ReviewThreadDTO :=
  sortBy (reviewThreadDTOOrder localeCompare) (rows.filter fun t => decide (t.targetRef ∈ items))

/-! ## The writes -/

/-- One statement on the `review_thread` table. A thread is resolved by an
upsert that says so. -/
inductive ThreadWrite
  | upsert (thread : CanonicalReviewThread) (nowIso : String)
  | softDeleteUnseen (sourceId : SourceId) (cutoff nowIso : String)

/-- What a write does to the store. -/
def ThreadWrite.apply (s : Store P) : ThreadWrite → Store P
  | upsert thread nowIso => s.upsertReviewThread thread nowIso
  | softDeleteUnseen sourceId cutoff nowIso =>
    s.softDeleteUnseenReviewThreads sourceId cutoff nowIso

/-- The store after a sequence of writes. -/
def threadsAfter (P : Type) (driver : Driver) (writes : List ThreadWrite) : Store P :=
  writes.foldl ThreadWrite.apply (Store.empty driver)

theorem driver_threadsAfter (driver : Driver) (writes : List ThreadWrite) :
    (threadsAfter P driver writes).driver = driver := by
  have aux : ∀ s : Store P, (writes.foldl ThreadWrite.apply s).driver = s.driver := by
    induction writes with
    | nil => exact fun s => rfl
    | cons w writes ih => exact fun s => by rw [List.foldl_cons, ih]; cases w <;> rfl
  exact aux _

/-- The table is the same under either driver. -/
theorem reviewThreads_threadsAfter (writes : List ThreadWrite) :
    (threadsAfter P .sqlite writes).reviewThreads =
      (threadsAfter P .postgres writes).reviewThreads := by
  have aux : ∀ s s' : Store P, s.reviewThreads = s'.reviewThreads →
      (writes.foldl ThreadWrite.apply s).reviewThreads =
        (writes.foldl ThreadWrite.apply s').reviewThreads := by
    induction writes with
    | nil => exact fun s s' h => h
    | cons w writes ih =>
      intro s s' h
      refine ih _ _ ?_
      cases w <;>
        simp only [ThreadWrite.apply, Store.upsertReviewThread,
          Store.softDeleteUnseenReviewThreads, h]
  exact aux _ _ rfl

/-- Every row stands under its own thread's key. -/
def KeyedByThread (s : Store P) : Prop :=
  ∀ k row, s.reviewThreads.get? k = some row → k = ⟨row.thread.sourceId, row.thread.externalId⟩

theorem keyedByThread_apply {s : Store P} (h : KeyedByThread s) (w : ThreadWrite) :
    KeyedByThread (w.apply s) := by
  intro k row hrow
  cases w with
  | upsert thread nowIso =>
    simp only [ThreadWrite.apply, Store.upsertReviewThread, OrdMap.get?_set] at hrow
    split at hrow
    · rename_i hk
      obtain rfl := Option.some.inj hrow
      exact hk.symm
    · exact h k row hrow
  | softDeleteUnseen sourceId cutoff nowIso =>
    simp only [ThreadWrite.apply, Store.softDeleteUnseenReviewThreads, OrdMap.get?_mapWithKey,
      Option.map_eq_some_iff] at hrow
    obtain ⟨old, hold, rfl⟩ := hrow
    have hk := h k old hold
    split <;> exact hk

theorem keyedByThread_threadsAfter (driver : Driver) (writes : List ThreadWrite) :
    KeyedByThread (threadsAfter P driver writes) := by
  have aux : ∀ s : Store P, KeyedByThread s → KeyedByThread (writes.foldl ThreadWrite.apply s) := by
    induction writes with
    | nil => exact fun s h => h
    | cons w writes ih => exact fun s h => ih _ (keyedByThread_apply h w)
  refine aux _ fun k row hrow => ?_
  simp [Store.empty] at hrow

/-! ## Where the orders part -/

/-- Two threads tied up to a key the drivers place nulls of differently both
have a value there, or neither has. -/
structure NullsAgree (a b : CanonicalReviewThread) : Prop where
  projectPath : a.projectPath.isNone = b.projectPath.isNone
  path : a.projectPath = b.projectPath → a.targetIid = b.targetIid →
    a.path.isNone = b.path.isNone
  line : a.projectPath = b.projectPath → a.targetIid = b.targetIid → a.path = b.path →
    a.line.isNone = b.line.isNone

theorem boolOrder_eq_iff (a b : Bool) : boolOrder a b = .eq ↔ a = b := by
  cases a <;> cases b <;> decide

theorem numberOrder_eq_iff (a b : Nat) : numberOrder a b = .eq ↔ a = b :=
  Nat.compare_eq_eq

theorem textOrder_eq_iff (a b : String) : textOrder a b = .eq ↔ a = b :=
  compareOfLessAndEq_eq_eq String.le_refl String.not_le

instance transCmp_boolOrder : Std.TransCmp boolOrder := inferInstanceAs (Std.TransOrd Bool)

instance transCmp_numberOrder : Std.TransCmp numberOrder := inferInstanceAs (Std.TransOrd Nat)

instance transCmp_textOrder : Std.TransCmp textOrder := inferInstanceAs (Std.TransOrd String)

instance transCmp_numberOrder_flip : Std.TransCmp fun a b => numberOrder b a where
  eq_swap := transCmp_numberOrder.eq_swap
  isLE_trans hab hbc := transCmp_numberOrder.isLE_trans hbc hab

instance transCmp_reviewThreadOrder (driver : Driver) :
    Std.TransCmp (reviewThreadOrder driver) := by
  unfold reviewThreadOrder
  infer_instance

theorem sourceId_val_inj {a b : SourceId} : a.val = b.val ↔ a = b := by
  cases a
  cases b
  simp

/-- Rows the order does not tell apart have one primary key. -/
theorem key_eq_of_reviewThreadOrder {driver : Driver} {a b : ReviewThreadRow}
    (h : reviewThreadOrder driver a b = .eq) :
    a.thread.sourceId = b.thread.sourceId ∧ a.thread.externalId = b.thread.externalId := by
  simp only [reviewThreadOrder, compareLex_eq_eq, on, textOrder_eq_iff] at h
  obtain ⟨-, hsource, -, -, -, -, hid⟩ := h
  exact ⟨sourceId_val_inj.mp hsource, hid⟩

/-- **The two orders put two threads alike exactly when their nulls
agree**, where nothing before has told them apart. -/
theorem reviewThreadOrder_eq_iff (a b : ReviewThreadRow) :
    reviewThreadOrder .sqlite a b = reviewThreadOrder .postgres a b ↔
      (a.thread.isResolved = b.thread.isResolved → a.thread.sourceId = b.thread.sourceId →
        NullsAgree a.thread b.thread) := by
  have htarget : ∀ x y, withNulls .last (fun m n => numberOrder n m) x y = .eq ↔ x = y :=
    withNulls_eq_iff fun m n => (numberOrder_eq_iff n m).trans eq_comm
  unfold reviewThreadOrder
  simp only [compareLex, on, Driver.ascendingNulls]
  rw [then_eq_then_iff, boolOrder_eq_iff]
  refine imp_congr_right fun _ => ?_
  rw [then_eq_then_iff, textOrder_eq_iff, sourceId_val_inj]
  refine imp_congr_right fun _ => ?_
  rw [withNulls_then_eq_iff textOrder_eq_iff, then_eq_then_iff, htarget,
    withNulls_then_eq_iff textOrder_eq_iff, withNulls_then_eq_iff numberOrder_eq_iff]
  constructor
  · rintro ⟨hproject, h⟩
    exact ⟨hproject, fun hp ht => (h hp ht).1, fun hp ht hpath => ((h hp ht).2 hpath).1⟩
  · intro h
    refine ⟨h.projectPath, fun hp ht => ⟨h.path hp ht, fun hpath => ?_⟩⟩
    exact ⟨h.line hp ht hpath, fun _ => rfl⟩

/-- The drivers list the live threads alike, and so the contract emits them
alike. -/
structure OrdersAgree (P : Type) (writes : List ThreadWrite) : Prop where
  listed : (threadsAfter P .sqlite writes).listLiveReviewThreads =
    (threadsAfter P .postgres writes).listLiveReviewThreads
  emitted : ∀ localeCompare items,
    reviewThreadsForItems localeCompare items
        ((threadsAfter P .sqlite writes).listLiveReviewThreads.map toReviewThreadDTO) =
      reviewThreadsForItems localeCompare items
        ((threadsAfter P .postgres writes).listLiveReviewThreads.map toReviewThreadDTO)

/-- The table's live rows are told apart by the order: it ends on the
primary key. -/
theorem eq_of_reviewThreadOrder {s : Store P} (hkeyed : KeyedByThread s) {driver : Driver} :
    ∀ a ∈ s.liveReviewThreads, ∀ b ∈ s.liveReviewThreads,
      reviewThreadOrder driver a b = .eq → a = b := by
  intro a ha b hb hab
  obtain ⟨ka, hka⟩ := OrdMap.mem_values_iff.mp (List.mem_filter.mp ha).1
  obtain ⟨kb, hkb⟩ := OrdMap.mem_values_iff.mp (List.mem_filter.mp hb).1
  obtain ⟨hsource, hid⟩ := key_eq_of_reviewThreadOrder hab
  have hk : ka = kb := by rw [hkeyed ka a hka, hkeyed kb b hkb, hsource, hid]
  rw [hk, hkb] at hka
  exact (Option.some.inj hka).symm

/-- The lists are the same exactly when the orders agree on the live
rows. -/
theorem listLiveReviewThreads_eq_iff (writes : List ThreadWrite) :
    (threadsAfter P .sqlite writes).listLiveReviewThreads =
        (threadsAfter P .postgres writes).listLiveReviewThreads ↔
      ∀ a ∈ (threadsAfter P .sqlite writes).liveReviewThreads,
        ∀ b ∈ (threadsAfter P .sqlite writes).liveReviewThreads,
          a.thread.isResolved = b.thread.isResolved → a.thread.sourceId = b.thread.sourceId →
            NullsAgree a.thread b.thread := by
  have hlive : (threadsAfter P .postgres writes).liveReviewThreads =
      (threadsAfter P .sqlite writes).liveReviewThreads := by
    rw [Store.liveReviewThreads, Store.liveReviewThreads, reviewThreads_threadsAfter]
  have heq : ∀ driver, ∀ a ∈ (threadsAfter P .sqlite writes).liveReviewThreads,
      ∀ b ∈ (threadsAfter P .sqlite writes).liveReviewThreads,
        reviewThreadOrder driver a b = .eq → a = b :=
    fun driver => eq_of_reviewThreadOrder (keyedByThread_threadsAfter .sqlite writes)
  rw [Store.listLiveReviewThreads, Store.listLiveReviewThreads, hlive, driver_threadsAfter,
    driver_threadsAfter, sortBy_eq_iff (heq .sqlite) (heq .postgres)]
  refine forall₄_congr fun a _ b _ => ?_
  exact reviewThreadOrder_eq_iff a b

/-- **The drivers order the live threads alike exactly when, among threads
alike in resolution and source, a null never meets a value at the first key
that tells them apart**: project path, path or line. -/
theorem ordersAgree_iff (writes : List ThreadWrite) :
    OrdersAgree P writes ↔
      ∀ a ∈ (threadsAfter P .sqlite writes).liveReviewThreads,
        ∀ b ∈ (threadsAfter P .sqlite writes).liveReviewThreads,
          a.thread.isResolved = b.thread.isResolved → a.thread.sourceId = b.thread.sourceId →
            NullsAgree a.thread b.thread := by
  constructor
  · intro h
    exact (listLiveReviewThreads_eq_iff writes).mp h.listed
  · intro h
    have hsame := (listLiveReviewThreads_eq_iff (P := P) writes).mpr h
    exact ⟨hsame, fun localeCompare items => by rw [hsame]⟩

namespace TwoThreads

/-- A GitLab source. -/
def gitlab : SourceId := ⟨"gitlab:gitlab.com", noBarGitlab⟩

/-- An open thread on one file of change request 1. -/
def thread (externalId : String) (line : Option Nat) : CanonicalReviewThread :=
  { sourceId := gitlab, externalId, projectPath := some "group/app",
    target := ⟨gitlab, "10"⟩, targetIid := some 1, title := none, url := none,
    isResolved := false, isOutdated := none, resolvedBy := none, path := some "app.ts", line,
    startLine := none, commentsTotal := 0, comments := [], lastCommentAt := none }

/-- A stored thread. -/
def row (externalId : String) (line : Option Nat) : ReviewThreadRow :=
  { thread := thread externalId line, lastSeenAt := "2026-06-01T00:00:00.000Z", deletedAt := none }

/-- One thread on a line of the file, one on the file as a whole. -/
def writes : List ThreadWrite :=
  [.upsert (thread "a" (some 3)) "2026-06-01T00:00:00.000Z",
    .upsert (thread "b" none) "2026-06-01T00:00:00.000Z"]

theorem live_writes :
    (threadsAfter Unit .sqlite writes).liveReviewThreads = [row "a" (some 3), row "b" none] :=
  rfl

end TwoThreads

/-- **The drivers can order threads differently**: SQLite puts the thread
without a line before the one with a line, Postgres after it. -/
theorem not_ordersAgree : ¬ ∀ writes, OrdersAgree Unit writes := by
  intro h
  have hlive := (listLiveReviewThreads_eq_iff TwoThreads.writes).mp (h TwoThreads.writes).listed
  rw [TwoThreads.live_writes] at hlive
  have hnulls := hlive (TwoThreads.row "a" (some 3)) (by simp) (TwoThreads.row "b" none) (by simp)
    rfl rfl
  have hline := hnulls.line rfl rfl rfl
  exact absurd hline (by decide)

end SymphonyBoard
