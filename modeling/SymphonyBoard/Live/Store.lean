import Mathlib.Algebra.GroupWithZero.Nat
import Mathlib.Data.Fintype.Defs
import Mathlib.Data.List.TakeWhile
import SymphonyBoard.Common.Descending
/-!
# The live event store

`src/live/store.ts`: an append-only table of events, numbered by
`AUTOINCREMENT`, and the one bounded read both the snapshot and the replay
use. A page is the longest run of the first matching rows that fits a row
and a byte budget, and at least the first of them, exactly where the row
budget is not nought (`pageIsLongest_iff`).

What a row holds besides its number and its stored size is a parameter.
-/

namespace SymphonyBoard

/-- `ROW_OVERHEAD_BYTES`. -/
def rowOverheadBytes : ℕ := 2048

/-- A stored event: `bytes` is what its payload columns take. -/
structure LiveRow (E : Type) where
  seq : ℕ
  bytes : ℕ
  input : E
deriving DecidableEq

/-- A persisted record as it is served. -/
structure LiveEvent (E : Type) where
  seq : ℕ
  input : E
deriving DecidableEq

/-- The record a row is served as. -/
def rowToEvent {E : Type} (row : LiveRow E) : LiveEvent E := { seq := row.seq, input := row.input }

/-- The table: row ids ascend from one in insertion order. -/
structure LiveStore (E : Type) where
  rows : List (LiveRow E)
  ascending : rows.Pairwise fun a b => a.seq < b.seq
  positive : ∀ row ∈ rows, 0 < row.seq

/-- Oldest or newest first. -/
inductive PageOrder
  | asc
  | desc
deriving DecidableEq, Repr

/-- The arguments of `page`; the bounds are exclusive. -/
structure PageQuery where
  order : PageOrder
  limit : ℕ
  maxBytes : ℕ
  after : Option ℕ
  before : Option ℕ
deriving DecidableEq

namespace LiveStore

variable {E : Type}

/-- The highest row id, nought of an empty table. -/
def maxSeq (s : LiveStore E) : ℕ := (s.rows.map (·.seq)).foldl max 0

/-- The rows of the `WHERE` clause, in the order asked for. -/
def matching (s : LiveStore E) (order : PageOrder) (after before : Option ℕ) : List (LiveRow E) :=
  let rows := s.rows.filter fun row =>
    decide (∀ a ∈ after, a < row.seq) && decide (∀ b ∈ before, row.seq < b)
  match order with
  | .asc => rows
  | .desc => rows.reverse

/-- How many of the candidates are taken: rows until the budget is passed,
the first whatever it weighs. -/
def takeFitting (maxBytes : ℕ) : ℕ → ℕ → List (LiveRow E) → ℕ
  | _, take, [] => take
  | used, take, row :: rows =>
    let used := used + (row.bytes + rowOverheadBytes)
    if 0 < take ∧ maxBytes < used then take else takeFitting maxBytes used (take + 1) rows

/-- The rows from one row id to another, both included. -/
def between (s : LiveStore E) (order : PageOrder) (lo hi : ℕ) : List (LiveRow E) :=
  let rows := s.rows.filter fun row => decide (lo ≤ row.seq) && decide (row.seq ≤ hi)
  match order with
  | .asc => rows
  | .desc => rows.reverse

/-- A page, with how many rows match, counted up to one over the limit. -/
def page (s : LiveStore E) (q : PageQuery) : List (LiveRow E) × ℕ :=
  let sizes := (s.matching q.order q.after q.before).take (q.limit + 1)
  let candidates := sizes.take q.limit
  match candidates.take (takeFitting q.maxBytes 0 0 candidates) with
  | [] => ([], sizes.length)
  | first :: rest =>
    let last := (first :: rest).getLast (List.cons_ne_nil _ _)
    (s.between q.order (min first.seq last.seq) (max first.seq last.seq), sizes.length)

/-- An append: rows are added behind, with higher ids. -/
def Extends (s s' : LiveStore E) : Prop :=
  ∃ rows, s'.rows = s.rows ++ rows ∧ ∀ row ∈ rows, s.maxSeq < row.seq

/-! ## The highest row id -/

theorem foldl_max_le (l : List ℕ) (m : ℕ) : ∀ n, l.foldl max m ≤ n ↔ m ≤ n ∧ ∀ x ∈ l, x ≤ n := by
  induction l generalizing m with
  | nil => simp
  | cons a l ih =>
    intro n
    rw [List.foldl_cons, ih]
    simp only [Nat.max_le, List.mem_cons, forall_eq_or_imp, and_assoc]

theorem maxSeq_le {s : LiveStore E} {n : ℕ} : s.maxSeq ≤ n ↔ ∀ row ∈ s.rows, row.seq ≤ n := by
  rw [maxSeq, foldl_max_le]
  simp

theorem le_maxSeq {s : LiveStore E} {row : LiveRow E} (h : row ∈ s.rows) : row.seq ≤ s.maxSeq :=
  maxSeq_le.mp le_rfl row h

theorem Extends.maxSeq_le {s s' : LiveStore E} (h : s.Extends s') : s.maxSeq ≤ s'.maxSeq := by
  obtain ⟨rows, heq, -⟩ := h
  refine LiveStore.maxSeq_le.mpr fun row hrow => le_maxSeq ?_
  rw [heq]
  exact List.mem_append_left _ hrow

theorem Extends.trans {s₁ s₂ s₃ : LiveStore E} (h : s₁.Extends s₂) (h' : s₂.Extends s₃) :
    s₁.Extends s₃ := by
  have hle := h.maxSeq_le
  obtain ⟨rows, heq, hrows⟩ := h
  obtain ⟨rows', heq', hrows'⟩ := h'
  refine ⟨rows ++ rows', by rw [heq', heq, List.append_assoc], ?_⟩
  intro row hrow
  rcases List.mem_append.mp hrow with hrow | hrow
  · exact hrows row hrow
  · exact lt_of_le_of_lt hle (hrows' row hrow)

theorem Extends.refl (s : LiveStore E) : s.Extends s := ⟨[], by simp, by simp⟩

/-- An append leaves what there is up to the old head. -/
theorem Extends.filter_le {s s' : LiveStore E} (h : s.Extends s') {p : LiveRow E → Bool}
    (hp : ∀ row, p row = true → row.seq ≤ s.maxSeq) : s'.rows.filter p = s.rows.filter p := by
  obtain ⟨rows, heq, hrows⟩ := h
  have hnil : rows.filter p = [] := by
    refine List.filter_eq_nil_iff.mpr fun row hrow hpr => ?_
    exact absurd (hp row hpr) (not_le.mpr (hrows row hrow))
  rw [heq, List.filter_append, hnil, List.append_nil]

/-! ## What a page carries -/

theorem mem_matching {s : LiveStore E} {order : PageOrder} {after before : Option ℕ}
    {row : LiveRow E} :
    row ∈ s.matching order after before ↔
      row ∈ s.rows ∧ (∀ a ∈ after, a < row.seq) ∧ ∀ b ∈ before, row.seq < b := by
  cases order <;> simp [matching]

theorem rows_descending (s : LiveStore E) : Descending (·.seq) s.rows.reverse :=
  List.pairwise_reverse.mpr s.ascending

theorem matching_descending (s : LiveStore E) (after before : Option ℕ) :
    Descending (·.seq) (s.matching .desc after before) := by
  have h : s.matching .desc after before = s.rows.reverse.filter fun row =>
      decide (∀ a ∈ after, a < row.seq) && decide (∀ b ∈ before, row.seq < b) := by
    rw [matching, List.filter_reverse]
  rw [h]
  exact s.rows_descending.filter _

theorem takeFitting_bounds (maxBytes used take : ℕ) (rows : List (LiveRow E)) :
    take ≤ takeFitting maxBytes used take rows ∧
      takeFitting maxBytes used take rows ≤ take + rows.length := by
  induction rows generalizing used take with
  | nil => simp [takeFitting]
  | cons row rows ih =>
    rw [takeFitting]
    split
    · simp
    · obtain ⟨hlo, hhi⟩ := ih (used + (row.bytes + rowOverheadBytes)) (take + 1)
      rw [List.length_cons]
      omega

/-- The first candidate is always taken. -/
theorem takeFitting_pos (maxBytes : ℕ) {rows : List (LiveRow E)} (h : rows ≠ []) :
    0 < takeFitting maxBytes 0 0 rows := by
  cases rows with
  | nil => exact absurd rfl h
  | cons row rows =>
    rw [takeFitting, if_neg (by simp)]
    exact (takeFitting_bounds maxBytes _ 1 rows).1

/-- What rows weigh in the byte budget. -/
def weight (rows : List (LiveRow E)) : ℕ := (rows.map fun row => row.bytes + rowOverheadBytes).sum

/-- **Rows are taken as long as they fit**: `k` more of them exactly when
they are the first row alone, or fit the budget with what is used. -/
theorem takeFitting_iff (maxBytes used take : ℕ) (rows : List (LiveRow E)) {k : ℕ} (hk : 1 ≤ k)
    (hlen : k ≤ rows.length) :
    take + k ≤ takeFitting maxBytes used take rows ↔
      take + k ≤ 1 ∨ used + weight (rows.take k) ≤ maxBytes := by
  induction rows generalizing used take k with
  | nil =>
    rw [List.length_nil] at hlen
    omega
  | cons row rows ih =>
    obtain ⟨k, rfl⟩ : ∃ n, k = n + 1 := ⟨k - 1, by omega⟩
    have hweight : weight ((row :: rows).take (k + 1)) =
        row.bytes + rowOverheadBytes + weight (rows.take k) := by
      simp [weight]
    rw [takeFitting, hweight]
    split
    · omega
    · rename_i hroom
      obtain ⟨hlo, -⟩ := takeFitting_bounds maxBytes (used + (row.bytes + rowOverheadBytes))
        (take + 1) rows
      rcases Nat.eq_zero_or_pos k with rfl | hpos
      · have hnone : weight (rows.take 0) = 0 := rfl
        omega
      · have hrest := ih (used + (row.bytes + rowOverheadBytes)) (take + 1) hpos
          (Nat.le_of_succ_le_succ hlen)
        rw [show take + (k + 1) = take + 1 + k by omega, hrest]
        omega

theorem matching_asc (s : LiveStore E) (after before : Option ℕ) :
    Descending (fun row => OrderDual.toDual row.seq) (s.matching .asc after before) :=
  List.Pairwise.filter _ s.ascending

/-- A row whose number is between those of two matching rows matches. -/
theorem matches_between {s : LiveStore E} {order : PageOrder} {after before : Option ℕ}
    {low high row : LiveRow E} (hlow : low ∈ s.matching order after before)
    (hhigh : high ∈ s.matching order after before) (hle : low.seq ≤ row.seq)
    (hge : row.seq ≤ high.seq) :
    (decide (∀ a ∈ after, a < row.seq) && decide (∀ b ∈ before, row.seq < b)) = true := by
  obtain ⟨-, hafter, -⟩ := mem_matching.mp hlow
  obtain ⟨-, -, hbefore⟩ := mem_matching.mp hhigh
  simp only [Bool.and_eq_true, decide_eq_true_eq]
  exact ⟨fun a ha => lt_of_lt_of_le (hafter a ha) hle,
    fun b hb => lt_of_le_of_lt hge (hbefore b hb)⟩

/-- **The second read**: the range of the numbers of a run of matching rows
holds that run, in the order asked for. -/
theorem between_eq {s : LiveStore E} {order : PageOrder} {after before : Option ℕ}
    {above below : List (LiveRow E)} {first : LiveRow E} {rest : List (LiveRow E)}
    (heq : s.matching order after before = above ++ (first :: rest) ++ below) :
    let last := (first :: rest).getLast (List.cons_ne_nil _ _)
    s.between order (min first.seq last.seq) (max first.seq last.seq) = first :: rest := by
  intro last
  have hin : ∀ row ∈ first :: rest, row ∈ s.matching order after before := by
    intro row hrow
    rw [heq]
    exact List.mem_append_left _ (List.mem_append_right _ hrow)
  have hfirst := hin first List.mem_cons_self
  have hlast := hin last (List.getLast_mem _)
  cases order with
  | desc =>
    have hdesc := s.matching_descending after before
    have hrun : Descending (·.seq) (first :: rest) := by
      rw [heq] at hdesc
      exact (List.pairwise_append.mp (List.pairwise_append.mp hdesc).1).2.1
    have hle : last.seq ≤ first.seq := hrun.getLast_le
    rw [min_eq_right hle, max_eq_left hle, between, ← List.filter_reverse]
    rw [matching, ← List.filter_reverse] at heq hdesc
    exact hdesc.filter_range_eq heq fun row hlo hhi => matches_between hlast hfirst hlo hhi
  | asc =>
    have hasc := s.matching_asc after before
    have hrun : Descending (fun row => OrderDual.toDual row.seq) (first :: rest) := by
      rw [heq] at hasc
      exact (List.pairwise_append.mp (List.pairwise_append.mp hasc).1).2.1
    have hle : first.seq ≤ last.seq := hrun.getLast_le
    rw [min_eq_left hle, max_eq_right hle, between]
    rw [matching] at heq hasc
    have hread := hasc.filter_range_eq heq fun row hlo hhi => matches_between hfirst hlast hhi hlo
    refine Eq.trans (List.filter_congr fun row _ => ?_) hread
    exact Bool.and_comm _ _

/-- **A page carries the matching rows taken**, and counts them past the
limit by one. -/
theorem page_eq (s : LiveStore E) (q : PageQuery) :
    let rows := s.matching q.order q.after q.before
    s.page q = (rows.take (takeFitting q.maxBytes 0 0 (rows.take q.limit)),
      min (q.limit + 1) rows.length) := by
  intro rows
  have hcand : (rows.take (q.limit + 1)).take q.limit = rows.take q.limit := by
    rw [List.take_take, min_eq_left (Nat.le_succ q.limit)]
  obtain ⟨-, hbound⟩ := takeFitting_bounds q.maxBytes 0 0 (rows.take q.limit)
  rw [Nat.zero_add, List.length_take] at hbound
  rw [page]
  simp only [show s.matching q.order q.after q.before = rows from rfl, hcand]
  generalize takeFitting q.maxBytes 0 0 (rows.take q.limit) = take at hbound ⊢
  have hrun : (rows.take q.limit).take take = rows.take take := by
    rw [List.take_take, min_eq_left (by omega)]
  rw [hrun, List.length_take]
  cases hpage : rows.take take with
  | nil => rfl
  | cons first rest =>
    have hrows : rows = [] ++ (first :: rest) ++ rows.drop take := by
      rw [List.nil_append, ← hpage, List.take_append_drop]
    simp only
    rw [between_eq hrows]

/-- **A page, newest first**: a prefix of the matching rows, within the
limit, with a row if one matches and the limit allows one. What matches is
counted past the limit by one. -/
theorem page_desc (s : LiveStore E) (q : PageQuery) (hq : q.order = .desc) :
    ∃ take, (s.page q).1 = (s.matching .desc q.after q.before).take take ∧
      take ≤ q.limit ∧ take ≤ (s.matching .desc q.after q.before).length ∧
      (0 < q.limit → s.matching .desc q.after q.before ≠ [] → 0 < take) ∧
      (s.page q).2 = min (q.limit + 1) (s.matching .desc q.after q.before).length := by
  rw [s.page_eq q, hq]
  generalize s.matching .desc q.after q.before = rows
  obtain ⟨-, hbound⟩ := takeFitting_bounds q.maxBytes 0 0 (rows.take q.limit)
  rw [Nat.zero_add, List.length_take] at hbound
  refine ⟨_, rfl, by omega, by omega, fun hlimit hne => ?_, rfl⟩
  refine takeFitting_pos q.maxBytes fun hnil => ?_
  rcases List.take_eq_nil_iff.mp hnil with h | h
  · omega
  · exact hne h

/-- The rows fit the row limit, and the byte budget unless there is but one
of them. -/
def FitsPage (q : PageQuery) (rows : List (LiveRow E)) : Prop :=
  rows.length ≤ q.limit ∧ (rows.length ≤ 1 ∨ weight rows ≤ q.maxBytes)

/-- The number of rows taken fits, and no larger one does. -/
theorem le_takeFitting_iff (q : PageQuery) (rows : List (LiveRow E)) {m : ℕ}
    (hm : m ≤ rows.length) :
    m ≤ takeFitting q.maxBytes 0 0 (rows.take q.limit) ↔ FitsPage q (rows.take m) := by
  obtain ⟨-, hbound⟩ := takeFitting_bounds q.maxBytes 0 0 (rows.take q.limit)
  rw [Nat.zero_add, List.length_take] at hbound
  unfold FitsPage
  rw [List.length_take, min_eq_left hm]
  rcases Nat.eq_zero_or_pos m with rfl | hpos
  · simp
  · by_cases hlimit : m ≤ q.limit
    · have hlen : m ≤ (rows.take q.limit).length := by
        rw [List.length_take]
        omega
      have hiff := takeFitting_iff q.maxBytes 0 0 (rows.take q.limit) hpos hlen
      rw [List.take_take, min_eq_left hlimit, Nat.zero_add, Nat.zero_add] at hiff
      rw [hiff, and_iff_right hlimit]
    · refine ⟨fun h => absurd h (by omega), fun h => absurd h.1 hlimit⟩

/-- **A page is the longest run of the first matching rows that fits**, and
the count is above its length just when a matching row is left over. -/
theorem page_longest (s : LiveStore E) (q : PageQuery) :
    let rows := s.matching q.order q.after q.before
    ∃ n ≤ rows.length,
      (s.page q).1 = rows.take n ∧
        FitsPage q (rows.take n) ∧ (∀ m ≤ rows.length, FitsPage q (rows.take m) → m ≤ n) ∧
        (0 < q.limit → rows ≠ [] → 0 < n) ∧
        ((s.page q).1.length < (s.page q).2 ↔ n < rows.length) := by
  intro rows
  obtain ⟨-, hbound⟩ := takeFitting_bounds q.maxBytes 0 0 (rows.take q.limit)
  rw [Nat.zero_add, List.length_take] at hbound
  have hle : takeFitting q.maxBytes 0 0 (rows.take q.limit) ≤ rows.length := by omega
  refine ⟨takeFitting q.maxBytes 0 0 (rows.take q.limit), hle, ?_, ?_, ?_, ?_, ?_⟩
  · rw [s.page_eq q]
  · exact (le_takeFitting_iff q rows hle).mp le_rfl
  · intro m hm hfits
    exact (le_takeFitting_iff q rows hm).mpr hfits
  · intro hlimit hne
    refine takeFitting_pos q.maxBytes fun hnil => ?_
    rcases List.take_eq_nil_iff.mp hnil with h | h
    · omega
    · exact hne h
  · rw [s.page_eq q, List.length_take]
    show min (takeFitting q.maxBytes 0 0 (rows.take q.limit)) rows.length <
      min (q.limit + 1) rows.length ↔ _
    omega

/-- The rows fit the row budget and the byte budget. -/
def FitsBudgets (q : PageQuery) (rows : List (LiveRow E)) : Prop :=
  rows.length ≤ q.limit ∧ weight rows ≤ q.maxBytes

/-- **What a page promises**: the longest run of the first matching rows
that fits both budgets, but at least one row when any matches; and a count
that is above its length just when a matching row is left over. -/
structure PageIsLongest (s : LiveStore E) (q : PageQuery) : Prop where
  longest : ∃ n ≤ (s.matching q.order q.after q.before).length,
    (s.page q).1 = (s.matching q.order q.after q.before).take n ∧
      (s.matching q.order q.after q.before ≠ [] → 0 < n) ∧
      (1 < n → FitsBudgets q ((s.matching q.order q.after q.before).take n)) ∧
      ∀ m ≤ (s.matching q.order q.after q.before).length,
        FitsBudgets q ((s.matching q.order q.after q.before).take m) → m ≤ n
  counted : (s.page q).1.length < (s.page q).2 ↔
    (s.page q).1.length < (s.matching q.order q.after q.before).length

/-- Two rows or more that fit a page fit both budgets. -/
theorem FitsPage.fitsBudgets {q : PageQuery} {rows : List (LiveRow E)} (h : FitsPage q rows)
    (hlen : 1 < rows.length) : FitsBudgets q rows :=
  ⟨h.1, h.2.resolve_left (by omega)⟩

/-- No row, where the row budget is nought. -/
theorem page_limitZero (s : LiveStore E) {q : PageQuery} (hq : q.limit = 0) :
    (s.page q).1 = [] := by
  rw [s.page_eq q, hq]
  rfl

/-- **A page keeps its promise exactly where the row budget allows a row**,
or no row matches. -/
theorem pageIsLongest_iff (s : LiveStore E) (q : PageQuery) :
    PageIsLongest s q ↔ 0 < q.limit ∨ s.matching q.order q.after q.before = [] := by
  constructor
  · rintro ⟨⟨n, hle, hrows, hpos, -⟩, -⟩
    refine or_iff_not_imp_right.mpr fun hne => Nat.pos_of_ne_zero fun hzero => ?_
    -- the page is empty, but its first row is promised
    rw [s.page_limitZero hzero] at hrows
    rcases List.take_eq_nil_iff.mp hrows.symm with h | h
    · exact absurd (hpos hne) (by omega)
    · exact hne h
  · intro hcond
    obtain ⟨n, hle, hrows, hfits, hmax, hpos, hcount⟩ := s.page_longest q
    have hlength : (s.page q).1.length = n := by
      rw [hrows, List.length_take, min_eq_left hle]
    refine ⟨⟨n, hle, hrows, fun hne => ?_, fun hn => ?_, fun m hm hfit => ?_⟩, ?_⟩
    · exact hpos (hcond.resolve_right hne) hne
    · refine hfits.fitsBudgets ?_
      rw [List.length_take, min_eq_left hle]
      exact hn
    · exact hmax m hm ⟨hfit.1, .inr hfit.2⟩
    · rw [hcount, hlength]

namespace OneRow

/-- A table of one row. -/
def store : LiveStore Unit where
  rows := [⟨1, 10, ()⟩]
  ascending := List.pairwise_singleton _ _
  positive := by simp

/-- The newest rows, as many as `limit`. -/
def newest (limit : ℕ) : PageQuery := ⟨.desc, limit, 4096, none, none⟩

/-- A row budget of nought leaves out the one row that matches. -/
theorem not_pageIsLongest : ¬PageIsLongest store (newest 0) := by
  rintro ⟨⟨n, -, hrows, hpos, -⟩, -⟩
  have hn : 0 < n := hpos (by decide)
  rw [show (store.page (newest 0)).1 = [] by decide] at hrows
  rcases List.take_eq_nil_iff.mp hrows.symm with h | h
  · omega
  · exact absurd h (by decide)

end OneRow

theorem page_descending (s : LiveStore E) {q : PageQuery} (hq : q.order = .desc) :
    Descending (·.seq) (s.page q).1 := by
  obtain ⟨take, hpage, -⟩ := s.page_desc q hq
  rw [hpage]
  exact (s.matching_descending q.after q.before).take take

end LiveStore

end SymphonyBoard
