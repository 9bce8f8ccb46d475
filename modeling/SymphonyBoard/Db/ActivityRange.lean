import SymphonyBoard.Db.Store
import SymphonyBoard.Shared.IsoText
/-!
# Date-bounded reads

`src/db/activity-range.ts` and the two queries of `src/db/sqlite.ts` that
use it. A row is first kept by a band of texts around the range, which an
index can scan, then by its instant. The band is exact on the rows of a
range whose widened end is still in a four-digit year
(`keeps_of_inRange`); from year 10000 on it holds no row at all
(`farFromYear10000_of_keeps`).

`julianday` reads a timestamp to the millisecond and knows four-digit years
only: it is `dateParse`. `Date.parse` reads expanded years too.
-/

namespace SymphonyBoard

/-- What a commit did to a file. -/
inductive CommitFileStatus
  | added
  | modified
  | removed
  | renamed
deriving DecidableEq, Repr

/-- A file of a commit. -/
structure CanonicalCommitFile where
  path : String
  status : CommitFileStatus
  additions : ℕ
  deletions : ℕ
deriving DecidableEq

/-- What is known of a commit's files. -/
inductive CommitFilesState
  | ok
  | unavailable
  | merge
deriving DecidableEq, Repr

/-- One commit's changed files; the external id is the commit activity's. -/
structure CanonicalCommitFiles where
  sourceId : SourceId
  externalId : String
  projectPath : Option String
  sha : String
  state : CommitFilesState
  truncated : Bool
  files : List CanonicalCommitFile
deriving DecidableEq

/-! ## The bounds -/

/-- The bounds of a range: coarse as text, exact as instants. -/
structure ActivityRangeBounds where
  coarseFrom : String
  coarseTo : String
  fromIso : String
  toIso : String
deriving DecidableEq

/-- `COARSE_MARGIN_HOURS`: no offset moves a text further than this from its instant. -/
def coarseMarginHours : ℤ := 48

/-- `activityRangeBounds` -/
def activityRangeBounds (range : TimeRange) : Except String ActivityRangeBounds :=
  match dateParseAll range.fromIso, dateParseAll range.toIso with
  | some fromMs, some toMs =>
    let marginMs := coarseMarginHours * 3600000
    .ok
      { coarseFrom := isoString (fromMs - marginMs)
        coarseTo := isoString (toMs + marginMs)
        fromIso := range.fromIso
        toIso := range.toIso }
  | _, _ =>
    .error ("activityRangeBounds: unparseable range (from=" ++ range.fromIso ++ ", to=" ++
      range.toIso ++ ")")

/-- `julianday(a) <= julianday(b)`; a comparison with null keeps no row. -/
def juliandayLe (a b : String) : Bool :=
  match dateParse a, dateParse b with
  | some x, some y => decide (x ≤ y)
  | _, _ => false

/-- The `WHERE` of both queries: the band of texts, then the instants. -/
def ActivityRangeBounds.keeps (b : ActivityRangeBounds) (occurredAt : String) : Bool :=
  decide (b.coarseFrom ≤ occurredAt) && decide (occurredAt ≤ b.coarseTo) &&
    juliandayLe b.fromIso occurredAt && juliandayLe occurredAt b.toIso

/-- `ORDER BY julianday(occurred_at) DESC, activity_id DESC`. -/
def newestFirst {α : Type} (occurredAt : α → String) (rows : List α) : List α :=
  rows.reverse.mergeSort fun a b =>
    Store.instantAtOrAfter (dateParse (occurredAt a)) (dateParse (occurredAt b))

/-- `listActivitiesInRange`: newest first. -/
def listActivitiesInRange (activities : OrdMap ItemEndpoint ActivityRow) (range : TimeRange) :
    Except String (List ActivityRow) := do
  let bounds ← activityRangeBounds range
  return newestFirst (·.activity.occurredAt)
    (activities.values.filter fun row => bounds.keeps row.activity.occurredAt)

/-- A stored row of a commit's files. -/
structure CommitFilesRow where
  files : CanonicalCommitFiles
  fetchedAt : String
deriving DecidableEq

/-- The join: a commit's files with the activity of the same identity. -/
def commitActivityAt (activities : OrdMap ItemEndpoint ActivityRow) (k : ItemEndpoint) :
    Option ActivityRow :=
  (activities.get? k).filter fun row => row.activity.kind = "commit"

/-- `listCommitFilesInRange`: the files of the commits whose activity is in the range. -/
def listCommitFilesInRange (activities : OrdMap ItemEndpoint ActivityRow)
    (commitFiles : OrdMap ItemEndpoint CommitFilesRow) (range : TimeRange) :
    Except String (List CommitFilesRow) := do
  let bounds ← activityRangeBounds range
  return (commitFiles.entries.filter fun b =>
    decide (b.2.files.state = .ok) && (commitActivityAt activities b.1).any fun row =>
      bounds.keeps row.activity.occurredAt).map (·.2)

theorem newestFirst_perm {α : Type} (occurredAt : α → String) (rows : List α) :
    (newestFirst occurredAt rows).Perm rows :=
  (List.mergeSort_perm _ _).trans (List.reverse_perm rows)

/-- Rows listed from the oldest on come back in the other order. -/
theorem newestFirst_of_pairwise {α : Type} {occurredAt : α → String} {rows : List α}
    (h : rows.reverse.Pairwise fun a b =>
      Store.instantAtOrAfter (dateParse (occurredAt a)) (dateParse (occurredAt b)) = true) :
    newestFirst occurredAt rows = rows.reverse :=
  List.mergeSort_of_pairwise h

/-! ## The band -/

/-- The instant of a timestamp lies in the range, both ends included. -/
def InRange (range : TimeRange) (occurredAt : String) : Prop :=
  ∃ f ∈ dateParseAll range.fromIso, ∃ t ∈ dateParseAll range.toIso, ∃ x ∈ dateParse occurredAt,
    f ≤ x ∧ x ≤ t

instance (range : TimeRange) (occurredAt : String) : Decidable (InRange range occurredAt) :=
  inferInstanceAs (Decidable (∃ f ∈ dateParseAll range.fromIso, ∃ t ∈ dateParseAll range.toIso,
    ∃ x ∈ dateParse occurredAt, f ≤ x ∧ x ≤ t))

/-- Both ends are written with four-digit years, the end two days before
year 10000. -/
def FarFromYear10000 (range : TimeRange) : Prop :=
  ∃ f t, dateParse range.fromIso = some f ∧ dateParse range.toIso = some t ∧
    t + coarseMarginHours * 3600000 < year10000Ms

/-- An ISO-8601 timestamp with a four-digit year and an offset of at most
fourteen hours. -/
def IsoDated (text : String) : Prop := ∃ t : IsoTimestamp, t.text = text

theorem juliandayLe_eq_true_iff {a b : String} :
    juliandayLe a b = true ↔ ∃ x y, dateParse a = some x ∧ dateParse b = some y ∧ x ≤ y := by
  unfold juliandayLe
  cases dateParse a with
  | none => simp
  | some x =>
    cases dateParse b with
    | none => simp
    | some y => simp

/-- What the bounds of a range are. -/
theorem activityRangeBounds_eq_ok {range : TimeRange} {bounds : ActivityRangeBounds}
    (h : activityRangeBounds range = .ok bounds) :
    ∃ f t, dateParseAll range.fromIso = some f ∧ dateParseAll range.toIso = some t ∧
      bounds =
        { coarseFrom := isoString (f - coarseMarginHours * 3600000)
          coarseTo := isoString (t + coarseMarginHours * 3600000)
          fromIso := range.fromIso
          toIso := range.toIso } := by
  unfold activityRangeBounds at h
  cases hf : dateParseAll range.fromIso with
  | none =>
    rw [hf] at h
    cases h
  | some f =>
    cases ht : dateParseAll range.toIso with
    | none =>
      rw [hf, ht] at h
      cases h
    | some t =>
      rw [hf, ht] at h
      exact ⟨f, t, rfl, rfl, (Except.ok.inj h).symm⟩

/-- The conditions of the query, one by one. -/
theorem keeps_eq_true_iff {b : ActivityRangeBounds} {occurredAt : String} :
    b.keeps occurredAt = true ↔ b.coarseFrom ≤ occurredAt ∧ occurredAt ≤ b.coarseTo ∧
      juliandayLe b.fromIso occurredAt = true ∧ juliandayLe occurredAt b.toIso = true := by
  simp [ActivityRangeBounds.keeps, and_assoc]

/-- A row that is kept is in the range. -/
theorem inRange_of_keeps {range : TimeRange} {bounds : ActivityRangeBounds} {occurredAt : String}
    (hbounds : activityRangeBounds range = .ok bounds) (h : bounds.keeps occurredAt = true) :
    InRange range occurredAt := by
  obtain ⟨f, t, hf, ht, rfl⟩ := activityRangeBounds_eq_ok hbounds
  obtain ⟨-, -, hfrom, hto⟩ := keeps_eq_true_iff.mp h
  obtain ⟨f', x, hf', hx, hfx⟩ := juliandayLe_eq_true_iff.mp hfrom
  obtain ⟨x', t', hx', ht', hxt⟩ := juliandayLe_eq_true_iff.mp hto
  obtain rfl := Option.some.inj (hx.symm.trans hx')
  exact ⟨f', dateParseAll_of_dateParse hf', t', dateParseAll_of_dateParse ht', x, hx, hfx, hxt⟩

/-- **Far from year 10000, the band holds every row of the range.** -/
theorem keeps_of_inRange {range : TimeRange} {bounds : ActivityRangeBounds} {occurredAt : String}
    (hbounds : activityRangeBounds range = .ok bounds) (hfar : FarFromYear10000 range)
    (hiso : IsoDated occurredAt) (h : InRange range occurredAt) :
    bounds.keeps occurredAt = true := by
  obtain ⟨stamp, rfl⟩ := hiso
  obtain ⟨f, t, hf, ht, hlt⟩ := hfar
  obtain ⟨f', t', hf', ht', rfl⟩ := activityRangeBounds_eq_ok hbounds
  obtain rfl := Option.some.inj (hf'.symm.trans (dateParseAll_of_dateParse hf))
  obtain rfl := Option.some.inj (ht'.symm.trans (dateParseAll_of_dateParse ht))
  obtain ⟨f, hf₂, t, ht₂, x, hx, hfx, hxt⟩ := h
  obtain rfl := Option.some.inj (hf'.symm.trans hf₂)
  obtain rfl := Option.some.inj (ht'.symm.trans ht₂)
  obtain rfl := Option.some.inj (stamp.dateParse_text.symm.trans hx)
  have hmargin : coarseMarginHours * 3600000 = 2 * dayMs := rfl
  rw [hmargin] at hlt ⊢
  refine keeps_eq_true_iff.mpr ⟨?_, ?_, ?_, ?_⟩
  · have hyear : f' - 2 * dayMs < year10000Ms := by
      unfold dayMs at *
      omega
    exact String.lt_asymm (stamp.isoString_lt_text (by omega) hyear)
  · exact String.lt_asymm (stamp.text_lt_isoString (by omega) hlt)
  · exact juliandayLe_eq_true_iff.mpr ⟨f', stamp.instant, hf, hx, hfx⟩
  · exact juliandayLe_eq_true_iff.mpr ⟨stamp.instant, t', hx, ht, hxt⟩

/-- **A row that is kept shows that the range is far from year 10000.** -/
theorem farFromYear10000_of_keeps {range : TimeRange} {bounds : ActivityRangeBounds}
    {occurredAt : String} (hbounds : activityRangeBounds range = .ok bounds)
    (hiso : IsoDated occurredAt) (h : bounds.keeps occurredAt = true) :
    FarFromYear10000 range := by
  obtain ⟨stamp, rfl⟩ := hiso
  obtain ⟨f, t, hf, ht, rfl⟩ := activityRangeBounds_eq_ok hbounds
  obtain ⟨-, hband, hfrom, hto⟩ := keeps_eq_true_iff.mp h
  obtain ⟨f', x, hf', hx, -⟩ := juliandayLe_eq_true_iff.mp hfrom
  obtain ⟨x', t', -, ht', -⟩ := juliandayLe_eq_true_iff.mp hto
  obtain rfl := Option.some.inj (ht.symm.trans (dateParseAll_of_dateParse ht'))
  refine ⟨f', t, hf', ht', ?_⟩
  -- an end from year 10000 on would sort before the row
  by_contra hyear
  exact absurd hband fun hle => hle (stamp.isoString_lt_text_of_year (by omega))

end SymphonyBoard
