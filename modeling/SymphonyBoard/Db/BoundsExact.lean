import Mathlib.Order.Bounds.Basic
import SymphonyBoard.Db.ActivityBounds
/-!
# The cached bounds are exact

Between calls the bounds of every repository are those of its stored
activities. Inside a transaction they may be stale, but only where there is
a mark (`ExactUpTo`): a write marks the repositories it changes, a flush
makes the marked ones exact, and a transaction that does not commit leaves
neither rows nor marks.
-/

namespace SymphonyBoard

/-! ## What exact means -/

/-- The instants of a repository's stored activities. -/
def repoInstants (t : ActivityTables) (sourceId : SourceId) (projectPath : Option String) : Set ℤ :=
  { ms | ∃ k row, t.activities.get? k = some row ∧ k.sourceId = sourceId ∧
    row.activity.projectPath = projectPath ∧ dateParse row.activity.occurredAt = some ms }

/-- A repository's row: there is none if it has no activities; otherwise it
holds the earliest and the latest instant. -/
def BoundsAt (t : ActivityTables) (sourceId : SourceId) (projectPath : Option String) : Prop :=
  match t.bounds.get? (sourceId, repoActivityProjectKey projectPath) with
  | none => repoInstants t sourceId projectPath = ∅
  | some row => row.projectPath = projectPath ∧
    (∃ ms, dateParse row.observedSince = some ms ∧
      IsLeast (repoInstants t sourceId projectPath) ms) ∧
    ∃ ms, dateParse row.lastActivityAt = some ms ∧
      IsGreatest (repoInstants t sourceId projectPath) ms

/-- Exact where there is no bucket for it in the list. Every stored activity
has an instant, and every row stands at the key of a repository. -/
structure ExactUpTo (buckets : List RepoActivityBoundsBucket) (t : ActivityTables) : Prop where
  timed : ∀ k row, t.activities.get? k = some row →
    ∃ ms, dateParse row.activity.occurredAt = some ms
  repos : ∀ sourceId projectPath, BoundsAt t sourceId projectPath ∨
    ∃ b ∈ buckets, b.sourceId = sourceId ∧ b.projectPath = projectPath
  keys : ∀ k row, t.bounds.get? k = some row → ∃ projectPath, k.2 = repoActivityProjectKey projectPath

/-- The bounds of every repository are exact. -/
abbrev ExactBounds (t : ActivityTables) : Prop := ExactUpTo [] t

theorem repoActivityProjectKey_inj {p q : Option String}
    (h : repoActivityProjectKey p = repoActivityProjectKey q) : p = q := by
  have hne : ∀ path, "null:" ≠ "path:" ++ path := by
    intro path heq
    have hhead := congrArg (fun s => s.toList.head?) heq
    have hpath : "path:".toList = ['p', 'a', 't', 'h', ':'] := by decide
    have hnull : "null:".toList = ['n', 'u', 'l', 'l', ':'] := by decide
    rw [String.toList_append, hpath, hnull] at hhead
    exact absurd (Option.some.inj hhead) (by decide)
  cases p with
  | none =>
    cases q with
    | none => rfl
    | some q => exact absurd h (hne q)
  | some p =>
    cases q with
    | none => exact absurd h.symm (hne p)
    | some q => exact congrArg some ((String.append_right_inj "path:").mp h)

/-! ## The first and the last -/

section Choice

variable {rows : List (ℕ × String)}

theorem mem_instantRows {parse : String → Option ℤ} {r : InstantRow} :
    r ∈ instantRows parse rows ↔ (r.id, r.value) ∈ rows ∧ parse r.value = some r.ms := by
  rw [instantRows, List.mem_filterMap]
  constructor
  · rintro ⟨row, hrow, hr⟩
    obtain ⟨ms, hms, rfl⟩ := Option.map_eq_some_iff.mp hr
    exact ⟨hrow, hms⟩
  · rintro ⟨hrow, hms⟩
    exact ⟨_, hrow, by rw [hms]; rfl⟩

/-- The instants of some rows. -/
def rowInstants (rows : List (ℕ × String)) : Set ℤ :=
  { ms | ∃ r ∈ rows, dateParse r.2 = some ms }

/-- What bounds have to be, of the rows they are read from. -/
def ReadsBounds (rows : List (ℕ × String)) (bounds : Option (String × String)) : Prop :=
  match bounds with
  | none => rowInstants rows = ∅
  | some (since, last) => (∃ ms, dateParse since = some ms ∧ IsLeast (rowInstants rows) ms) ∧
    ∃ ms, dateParse last = some ms ∧ IsGreatest (rowInstants rows) ms

/-- A first and a last of the rows read their bounds. -/
theorem readsBounds_of_rows {first last : InstantRow} (hfirst : first ∈ instantRows dateParse rows)
    (hleast : ∀ r ∈ instantRows dateParse rows, first.ms ≤ r.ms)
    (hlast : last ∈ instantRows dateParse rows)
    (hgreatest : ∀ r ∈ instantRows dateParse rows, r.ms ≤ last.ms) :
    ReadsBounds rows (some (first.value, last.value)) := by
  obtain ⟨hfirst, hms⟩ := mem_instantRows.mp hfirst
  obtain ⟨hlast, hms'⟩ := mem_instantRows.mp hlast
  have hrow : ∀ ms ∈ rowInstants rows, ∃ r ∈ instantRows dateParse rows, r.ms = ms := by
    rintro ms ⟨r, hr, hms⟩
    exact ⟨⟨ms, r.1, r.2⟩, mem_instantRows.mpr ⟨hr, hms⟩, rfl⟩
  refine ⟨⟨first.ms, hms, ⟨_, hfirst, hms⟩, fun ms h => ?_⟩,
    ⟨last.ms, hms', ⟨_, hlast, hms'⟩, fun ms h => ?_⟩⟩
  · obtain ⟨r, hr, rfl⟩ := hrow ms h
    exact hleast r hr
  · obtain ⟨r, hr, rfl⟩ := hrow ms h
    exact hgreatest r hr

theorem readsBounds_of_nil (h : instantRows dateParse rows = []) : ReadsBounds rows none := by
  refine Set.eq_empty_iff_forall_notMem.mpr ?_
  rintro ms ⟨r, hr, hms⟩
  have hmem : (⟨ms, r.1, r.2⟩ : InstantRow) ∈ instantRows dateParse rows :=
    mem_instantRows.mpr ⟨hr, hms⟩
  rw [h] at hmem
  cases hmem

instance transCmp_earliestFirst : Std.TransCmp earliestFirst := by
  unfold earliestFirst
  infer_instance

instance transCmp_latestFirst : Std.TransCmp latestFirst :=
  @Std.TransCmp.opposite _ earliestFirst _

theorem ms_le_of_earliestFirst {a b : InstantRow} (h : (earliestFirst a b).isLE = true) :
    a.ms ≤ b.ms := by
  by_contra hlt
  have hgt : compare a.ms b.ms = .gt := by
    rw [Int.compare_eq_gt]
    omega
  simp only [earliestFirst, compareLex, on, hgt] at h
  cases h

/-- SQLite reads the bounds. -/
theorem firstValues_reads (rows : List (ℕ × String)) : ReadsBounds rows (firstValues rows) := by
  unfold firstValues
  cases hfirst : (sortBy earliestFirst (instantRows dateParse rows)).head? with
  | none => exact readsBounds_of_nil (head?_sortBy_eq_none.mp hfirst)
  | some first =>
    cases hlast : (sortBy latestFirst (instantRows dateParse rows)).head? with
    | none => exact readsBounds_of_nil (head?_sortBy_eq_none.mp hlast)
    | some last =>
      obtain ⟨hmem, hle⟩ := head?_sortBy_eq_some hfirst
      obtain ⟨hmem', hle'⟩ := head?_sortBy_eq_some hlast
      exact readsBounds_of_rows hmem (fun r hr => ms_le_of_earliestFirst (hle r hr)) hmem'
        fun r hr => ms_le_of_earliestFirst (hle' r hr)

/-- The scan keeps a row that no other is before. -/
theorem foldl_keepBetter {R : InstantRow → InstantRow → Prop} (hrefl : ∀ a, R a a)
    (htrans : ∀ a b c, R a b → R b c → R a c) (better : InstantRow → InstantRow → Bool)
    (hbetter : ∀ a b, better a b = true → R a b) (hkept : ∀ a b, better a b = false → R b a)
    (l : List InstantRow) (kept : Option InstantRow) :
    (l.foldl (keepBetter better) kept = none → kept = none ∧ l = []) ∧
    ∀ m, l.foldl (keepBetter better) kept = some m →
      (m ∈ l ∨ kept = some m) ∧ (∀ a ∈ l, R m a) ∧ ∀ a, kept = some a → R m a := by
  induction l generalizing kept with
  | nil =>
    refine ⟨fun h => ⟨h, rfl⟩, fun m h => ⟨Or.inr h, List.forall_mem_nil _, fun a ha => ?_⟩⟩
    obtain rfl := Option.some.inj (ha.symm.trans h)
    exact hrefl _
  | cons x l ih =>
    obtain ⟨hnone, hsome⟩ := ih (keepBetter better kept x)
    -- the row kept is before the one read and before the one kept before
    have hstep : ∃ y, keepBetter better kept x = some y ∧ (y = x ∨ kept = some y) ∧ R y x ∧
        ∀ a, kept = some a → R y a := by
      cases kept with
      | none => exact ⟨x, rfl, Or.inl rfl, hrefl x, fun a ha => by cases ha⟩
      | some old =>
        cases hx : better x old with
        | true =>
          refine ⟨x, by simp [keepBetter, hx], Or.inl rfl, hrefl x, fun a ha => ?_⟩
          obtain rfl := Option.some.inj ha
          exact hbetter _ _ hx
        | false =>
          refine ⟨old, by simp [keepBetter, hx], Or.inr rfl, hkept _ _ hx, fun a ha => ?_⟩
          obtain rfl := Option.some.inj ha
          exact hrefl _
    obtain ⟨y, hy, hmem, hyx, hyold⟩ := hstep
    rw [List.foldl_cons]
    refine ⟨fun h => ?_, fun m h => ?_⟩
    · rw [hy] at hnone
      rw [hy] at h
      exact absurd (hnone h).1 (Option.some_ne_none y)
    · obtain ⟨hm, hall, hlater⟩ := hsome m h
      have hmy := hlater y hy
      refine ⟨?_, List.forall_mem_cons.mpr ⟨htrans m y x hmy hyx, hall⟩,
        fun a ha => htrans m y a hmy (hyold a ha)⟩
      rcases hm with hm | hm
      · exact Or.inl (List.mem_cons_of_mem x hm)
      · obtain rfl := Option.some.inj (hy.symm.trans hm)
        rcases hmem with rfl | hold
        · exact Or.inl List.mem_cons_self
        · exact Or.inr hold

/-- PostgreSQL's scan reads the bounds too, of rows that all have an
instant. -/
theorem repoActivityBoundsFromRows_reads
    (htimed : ∀ r ∈ rows, ∃ ms, dateParse r.2 = some ms) :
    ReadsBounds rows (repoActivityBoundsFromRows rows) := by
  have hparse : instantRows dateParseAll rows = instantRows dateParse rows := by
    unfold instantRows
    refine List.filterMap_congr fun r hr => ?_
    obtain ⟨ms, hms⟩ := htimed r hr
    rw [dateParseAll, hms, Option.some_or]
  unfold repoActivityBoundsFromRows
  simp only [hparse]
  have hearlier := foldl_keepBetter (R := fun a b => a.ms ≤ b.ms) (fun a => le_refl a.ms)
    (fun a b c => le_trans) isEarlier
    (fun a b h => by simp [isEarlier] at h; omega) (fun a b h => by simp [isEarlier] at h; omega)
    (instantRows dateParse rows) none
  have hlater := foldl_keepBetter (R := fun a b => b.ms ≤ a.ms) (fun a => le_refl a.ms)
    (fun a b c h h' => le_trans h' h) isLater
    (fun a b h => by simp [isLater] at h; omega) (fun a b h => by simp [isLater] at h; omega)
    (instantRows dateParse rows) none
  cases hfirst : (instantRows dateParse rows).foldl (keepBetter isEarlier) none with
  | none => exact readsBounds_of_nil (hearlier.1 hfirst).2
  | some first =>
    cases hlast : (instantRows dateParse rows).foldl (keepBetter isLater) none with
    | none => exact readsBounds_of_nil (hlater.1 hlast).2
    | some last =>
      obtain ⟨hmem, hle, -⟩ := hearlier.2 first hfirst
      obtain ⟨hmem', hle', -⟩ := hlater.2 last hlast
      exact readsBounds_of_rows (hmem.resolve_right (by simp)) hle
        (hmem'.resolve_right (by simp)) hle'

theorem boundsOf_reads (driver : BoundsDriver)
    (htimed : ∀ r ∈ rows, ∃ ms, dateParse r.2 = some ms) : ReadsBounds rows (driver.boundsOf rows) := by
  cases driver with
  | sqlite => exact firstValues_reads rows
  | postgres heap =>
    have hmem : ∀ r, r ∈ heap.order rows ↔ r ∈ rows := fun r => (heap.perm rows).mem_iff
    have hinstants : rowInstants (heap.order rows) = rowInstants rows := by
      ext ms
      simp only [rowInstants, Set.mem_ofPred_eq, hmem]
    have h : ReadsBounds (heap.order rows) (repoActivityBoundsFromRows (heap.order rows)) :=
      repoActivityBoundsFromRows_reads fun r hr => htimed r ((hmem r).mp hr)
    unfold ReadsBounds at h ⊢
    rw [hinstants] at h
    exact h

end Choice

end SymphonyBoard
