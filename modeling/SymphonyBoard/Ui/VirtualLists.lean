import Mathlib.Data.Rat.Floor
import Mathlib.Tactic.NormNum
import SymphonyBoard.Common.Column
import SymphonyBoard.Common.Markup
import SymphonyBoard.Common.OrdMap
import SymphonyBoard.Contract.Types
import SymphonyBoard.Db.ActivityRange
import SymphonyBoard.Shared.Number
import SymphonyBoard.Shared.Zone
/-!
# Virtual lists

The windows on the activity feed and on the commit timeline
(`packages/ui/src/model.ts`): which rows a scroll position has to render.
Pixels are exact rationals.

The feed's rows have one height and one gap, and its window divides
(`activityVirtualRange_rendersVisible`). The timeline's rows vary, so
`buildCommitRows` lays them out first (`laidOut_buildCommitRows`) and
`commitVirtualRange` scans the layout for both ends.
-/

namespace SymphonyBoard

/-- `Number.isFinite(n) ? n : d`. -/
def JsNumber.orElse (n : JsNumber) (d : ℚ) : ℚ :=
  match n with
  | .finite value => value
  | _ => d

@[simp] theorem JsNumber.orElse_finite (value d : ℚ) :
    (JsNumber.finite value).orElse d = value := rfl

/-- `Math.trunc`. -/
def truncate (q : ℚ) : ℤ := if 0 ≤ q then ⌊q⌋ else ⌈q⌉

/-! ## Rows of one height -/

/-- `ACTIVITY_ROW_HEIGHT_PX` -/
def activityRowHeightPx : ℚ := 60

/-- `ACTIVITY_ROW_GAP_PX` -/
def activityRowGapPx : ℚ := 6

/-- `ACTIVITY_OVERSCAN_ROWS` -/
def activityOverscanRows : ℚ := 8

/-- Rows `start` to `stop`, the source's `end`. -/
structure ActivityVirtualRange where
  start : ℤ
  stop : ℤ
  visibleCount : ℤ
  totalHeightPx : ℚ

/-- What the feed's window is asked for. An absent field has a default. -/
structure ActivityWindow where
  count : JsNumber
  scrollTop : JsNumber
  viewportHeight : JsNumber
  rowHeight : Option JsNumber
  rowGap : Option JsNumber
  overscan : Option JsNumber

/-- How many rows a count stands for. -/
def safeCount (count : JsNumber) : ℤ := max 0 (truncate (count.orElse 0))

/-- `activityVirtualRange`: the rows to render, with the margin around them. -/
def activityVirtualRange (w : ActivityWindow) : ActivityVirtualRange :=
  let rowHeight := w.rowHeight.getD (.finite activityRowHeightPx)
  let rowGap := w.rowGap.getD (.finite activityRowGapPx)
  let overscan := w.overscan.getD (.finite activityOverscanRows)
  let count := safeCount w.count
  let safeRowHeight := max 1 (rowHeight.orElse activityRowHeightPx)
  let safeRowGap := max 0 (rowGap.orElse activityRowGapPx)
  let rowStride := safeRowHeight + safeRowGap
  let totalHeightPx := if count = 0 then 0 else count * rowStride - safeRowGap
  if count = 0 then { start := 0, stop := 0, visibleCount := 0, totalHeightPx }
  else
    let safeScrollTop := max 0 (w.scrollTop.orElse 0)
    let safeViewportHeight := max 1 (w.viewportHeight.orElse safeRowHeight)
    let safeOverscan := max 0 (truncate (overscan.orElse activityOverscanRows))
    let firstVisible := min (count - 1) ⌊safeScrollTop / rowStride⌋
    let viewportRows := max 1 (⌈safeViewportHeight / rowStride⌉ + 1)
    let start := max 0 (firstVisible - safeOverscan)
    let stop := min count (firstVisible + viewportRows + safeOverscan)
    { start, stop, visibleCount := stop - start, totalHeightPx }

/-! ## The timeline's rows -/

/-- `COMMIT_ROW_BODY_HEIGHT_PX` -/
def commitRowBodyHeightPx : ℚ := 70

/-- `COMMIT_DATE_SLOT_HEIGHT_PX` -/
def commitDateSlotHeightPx : ℚ := 22

/-- `COMMIT_ROW_GAP_PX` -/
def commitRowGapPx : ℚ := 8

/-- `COMMIT_EXPANDED_PANEL_CHROME_PX` -/
def commitExpandedPanelChromePx : ℕ := 18

/-- `COMMIT_EXPANDED_PANEL_LINE_HEIGHT_PX` -/
def commitExpandedPanelLineHeightPx : ℕ := 18

/-- `COMMIT_EXPANDED_PANEL_MAIN_GAP_PX` -/
def commitExpandedPanelMainGapPx : ℚ := 6

/-- `COMMIT_DEFAULT_VIEWPORT_PX` -/
def commitDefaultViewportPx : ℚ := 680

/-- `COMMIT_OVERSCAN_ROWS` -/
def commitOverscanRows : ℕ := 8

/-- A commit, with the body text of its details. -/
structure TimelineCommit extends ActivityDTO where
  detailsBody : Option String

/-- The key of an activity. -/
def activityKey (a : ActivityDTO) : String := a.sourceId.val ++ "|" ++ a.externalId

/-- The body of a commit, if it has one. -/
def commitBody (commit : TimelineCommit) : Option String := cleanText commit.detailsBody

/-- The viewer's calendar day of a commit; `none` stands for `"unknown"`. -/
def commitDateKey (iso : String) (tz : Tz) : Option DateOnly :=
  (dateParseAll iso).map (zonedDateOnly · tz)

/-- `split(/\r\n|\r|\n/)`. -/
def bodyLines : JsText → List JsText
  | [] => [[]]
  | 13 :: 10 :: rest => [] :: bodyLines rest
  | u :: rest =>
    if u = 13 ∨ u = 10 then [] :: bodyLines rest
    else
      match bodyLines rest with
      | line :: lines => (u :: line) :: lines
      | [] => [[u]]

/-- The height of an expanded body, from the lengths of its lines. -/
def estimateCommitBodyPanelHeight (body : String) (narrow : Bool) : ℕ :=
  let wrapWidth := if narrow then 44 else 96
  let estimatedLines := (bodyLines (utf16 body)).foldl
    (fun sum line => sum + max 1 ((line.length + wrapWidth - 1) / wrapWidth)) 0
  commitExpandedPanelChromePx + estimatedLines * commitExpandedPanelLineHeightPx

/-- A row of the timeline: where it is and how high. -/
structure CommitVirtualRow where
  commit : TimelineCommit
  index : ℕ
  offset : ℚ
  height : ℚ
  showDate : Bool
  body : Option String
  expanded : Bool

/-- What the rows are laid out from, the commits and the zone apart. -/
structure RowSizes where
  rowBodyHeight : ℚ
  expandedBodyId : Option String
  measuredBodyHeights : OrdMap String ℚ

/-- A row's body: as measured, else an estimate. -/
def RowSizes.bodyHeight (sizes : RowSizes) (commit : TimelineCommit) : ℚ :=
  let narrow := decide (commitRowBodyHeightPx < sizes.rowBodyHeight)
  (sizes.measuredBodyHeights.get? (activityKey commit.toActivityDTO)).getD <|
    match commitBody commit with
    | some body =>
      if some (activityKey commit.toActivityDTO) = sizes.expandedBodyId then
        sizes.rowBodyHeight + estimateCommitBodyPanelHeight body narrow +
          commitExpandedPanelMainGapPx
      else sizes.rowBodyHeight
    | none => sizes.rowBodyHeight

/-- The row of one commit, below `offset` and after a row of day
`previous`. -/
def commitRow (sizes : RowSizes) (tz : Tz) (index : ℕ) (offset : ℚ)
    (previous : Option (Option DateOnly)) (commit : TimelineCommit) : CommitVirtualRow :=
  let key := commitDateKey commit.occurredAt tz
  let showDate := decide (previous ≠ none ∧ previous ≠ some key)
  let body := commitBody commit
  { commit, index, offset
    height := sizes.bodyHeight commit + (if showDate then commitDateSlotHeightPx else 0) +
      commitRowGapPx
    showDate, body
    expanded := body.isSome && some (activityKey commit.toActivityDTO) = sizes.expandedBodyId }

/-- The loop over the commits: the rows from here on, and where they end. -/
def commitRowsFrom (sizes : RowSizes) (tz : Tz) (index : ℕ) (offset : ℚ)
    (previous : Option (Option DateOnly)) : List TimelineCommit → List CommitVirtualRow × ℚ
  | [] => ([], offset)
  | commit :: commits =>
    let row := commitRow sizes tz index offset previous commit
    let rest := commitRowsFrom sizes tz (index + 1) (offset + row.height)
      (some (commitDateKey commit.occurredAt tz)) commits
    (row :: rest.1, rest.2)

/-- The rows, and the height of them all. -/
def buildCommitRows (sizes : RowSizes) (tz : Tz) (commits : List TimelineCommit) :
    List CommitVirtualRow × ℚ :=
  commitRowsFrom sizes tz 0 0 none commits

/-- The rows to render, and the height of all. -/
structure CommitVirtualRange where
  start : ℕ
  stop : ℕ
  totalHeightPx : ℚ

/-- `rows[i].offset + rows[i].height <= y`. -/
def endsBy (rows : List CommitVirtualRow) (y : ℚ) (i : ℕ) : Bool :=
  rows[i]?.any fun row => row.offset + row.height ≤ y

/-- `rows[i].offset < y`. -/
def beginsAbove (rows : List CommitVirtualRow) (y : ℚ) (i : ℕ) : Bool :=
  rows[i]?.any fun row => row.offset < y

/-- `commitVirtualRange`: the rows to render, by their offsets. -/
def commitVirtualRange (rows : List CommitVirtualRow) (totalHeightPx : ℚ)
    (scrollTop viewportHeight : JsNumber) : CommitVirtualRange :=
  if rows = [] then { start := 0, stop := 0, totalHeightPx := 0 }
  else
    let safeScrollTop := max 0 (scrollTop.orElse 0)
    let safeViewportHeight := max 1 (viewportHeight.orElse commitDefaultViewportPx)
    let viewportBottom := safeScrollTop + safeViewportHeight
    let firstVisible := advance (endsBy rows safeScrollTop) (rows.length - 1) 0
    let endVisible :=
      advance (beginsAbove rows viewportBottom) (rows.length - firstVisible) firstVisible
    { start := firstVisible - commitOverscanRows
      stop := min rows.length (max endVisible (firstVisible + 1) + commitOverscanRows)
      totalHeightPx }

/-! ## What a window has to render -/

/-- A slice of `count` boxes is in bounds and leaves out none that the
viewport shows. -/
structure RendersVisible {count : ℕ} (start stop : ℤ) (box : Fin count → Set ℚ)
    (viewport : Set ℚ) : Prop where
  nonneg : 0 ≤ start
  ordered : start ≤ stop
  bounded : stop ≤ count
  covers : ∀ i, Overlaps (box i) viewport → start ≤ i ∧ i < stop

/-- The viewport at a scroll position. -/
def viewportAt (scrollTop viewportHeight : ℚ) : Set ℚ :=
  Set.Ico scrollTop (scrollTop + viewportHeight)

/-- The box of a row of the feed. -/
def activityBox (rowHeight rowGap : ℚ) (i : ℕ) : Set ℚ :=
  Set.Ico (i * (rowHeight + rowGap)) (i * (rowHeight + rowGap) + rowHeight)

/-- The box of a row of the timeline. -/
def CommitVirtualRow.box (row : CommitVirtualRow) : Set ℚ :=
  Set.Ico row.offset (row.offset + row.height)

/-! ## The feed -/

/-- A slice that starts `overscan` rows before the first row on screen and
ends as far after the last holds every row on screen. -/
theorem activityVirtualRange_rendersVisible (count : JsNumber) (overscan : Option JsNumber)
    {rowHeight rowGap : ℚ} (hheight : 1 ≤ rowHeight) (hgap : 0 ≤ rowGap)
    (scrollTop viewportHeight : ℚ) :
    let range := activityVirtualRange
      { count, scrollTop := .finite scrollTop, viewportHeight := .finite viewportHeight
        rowHeight := some (.finite rowHeight), rowGap := some (.finite rowGap), overscan }
    RendersVisible range.start range.stop
      (fun i : Fin (safeCount count).toNat => activityBox rowHeight rowGap i)
      (viewportAt scrollTop viewportHeight) := by
  have hcount : 0 ≤ safeCount count := le_max_left _ _
  simp only [activityVirtualRange, Option.getD_some, JsNumber.orElse_finite,
    max_eq_right hheight, max_eq_right hgap]
  set rows := safeCount count
  set extra := max 0 (truncate
    ((overscan.getD (.finite activityOverscanRows)).orElse activityOverscanRows))
  have hextra : 0 ≤ extra := le_max_left _ _
  by_cases hzero : rows = 0
  · rw [if_pos hzero]
    refine ⟨le_rfl, le_rfl, by simp, fun i _ => ?_⟩
    have hi := i.isLt
    omega
  · rw [if_neg hzero]
    have hstride : 0 < rowHeight + rowGap := by linarith
    have htop : 0 ≤ max 0 scrollTop := le_max_left _ _
    have hfloor : 0 ≤ ⌊max 0 scrollTop / (rowHeight + rowGap)⌋ :=
      Int.floor_nonneg.mpr (div_nonneg htop hstride.le)
    set first := ⌊max 0 scrollTop / (rowHeight + rowGap)⌋
    set shown := ⌈max 1 viewportHeight / (rowHeight + rowGap)⌉ + 1
    refine ⟨le_max_left _ _, ?_, ?_, fun i hmeets => ?_⟩
    · show max 0 (min (rows - 1) first - extra) ≤
        min rows (min (rows - 1) first + max 1 shown + extra)
      omega
    · show min rows _ ≤ ((rows.toNat : ℕ) : ℤ)
      omega
    · obtain ⟨hbegins, hends, -⟩ := hmeets.lt
      have hi := i.isLt
      have hk : ((i : ℕ) : ℚ) = (((i : ℕ) : ℤ) : ℚ) := by norm_cast
      rw [hk] at hbegins hends
      -- a row that ends below the top is at or after the first
      have hle : first ≤ ((i : ℕ) : ℤ) := by
        have hbelow : 0 ≤ (((i : ℕ) : ℤ) : ℚ) * (rowHeight + rowGap) :=
          mul_nonneg (by positivity) hstride.le
        have hlow : rowHeight ≤ rowHeight + rowGap := by linarith
        exact floor_le_of_ends_below hlow hstride (max_lt (by linarith) hends)
      -- a row that begins above the bottom is among those shown
      have hlt : ((i : ℕ) : ℤ) < first + shown := by
        refine lt_of_begins_above hstride ?_
        have hscroll := le_max_right 0 scrollTop
        have hview := le_max_right 1 viewportHeight
        linarith
      constructor
      · show max 0 (min (rows - 1) first - extra) ≤ ((i : ℕ) : ℤ)
        omega
      · show ((i : ℕ) : ℤ) < min rows (min (rows - 1) first + max 1 shown + extra)
        omega

/-! ## The timeline -/

/-- Every row begins where the one before it ends. -/
theorem stacked_commitRowsFrom (sizes : RowSizes) (tz : Tz) (commits : List TimelineCommit)
    (index : ℕ) (offset : ℚ) (previous : Option (Option DateOnly)) :
    Stacked (·.offset) (·.height) offset
      (commitRowsFrom sizes tz index offset previous commits).1 := by
  induction commits generalizing index offset previous with
  | nil => trivial
  | cons commit commits ih => exact ⟨rfl, ih _ _ _⟩

theorem total_commitRowsFrom (sizes : RowSizes) (tz : Tz) (commits : List TimelineCommit)
    (index : ℕ) (offset : ℚ) (previous : Option (Option DateOnly)) :
    (commitRowsFrom sizes tz index offset previous commits).2 =
      offset + ((commitRowsFrom sizes tz index offset previous commits).1.map (·.height)).sum := by
  induction commits generalizing index offset previous with
  | nil => simp [commitRowsFrom]
  | cons commit commits ih =>
    simp only [commitRowsFrom, List.map_cons, List.sum_cons]
    rw [ih, add_assoc]

theorem commits_commitRowsFrom (sizes : RowSizes) (tz : Tz) (commits : List TimelineCommit)
    (index : ℕ) (offset : ℚ) (previous : Option (Option DateOnly)) :
    (commitRowsFrom sizes tz index offset previous commits).1.map (·.commit) = commits := by
  induction commits generalizing index offset previous with
  | nil => rfl
  | cons commit commits ih =>
    simp only [commitRowsFrom, List.map_cons]
    rw [ih]
    rfl

/-- Sizes no row of which is negative: the layout's own height, and every
height measured. -/
structure RowSizes.Positive (sizes : RowSizes) : Prop where
  rowBody : 0 < sizes.rowBodyHeight
  measured : ∀ key height, sizes.measuredBodyHeights.get? key = some height → 0 < height

theorem RowSizes.Positive.bodyHeight {sizes : RowSizes} (h : sizes.Positive)
    (commit : TimelineCommit) : 0 < sizes.bodyHeight commit := by
  unfold RowSizes.bodyHeight
  cases hmeasured : sizes.measuredBodyHeights.get? (activityKey commit.toActivityDTO) with
  | some height => exact h.measured _ height hmeasured
  | none =>
    have hbody := h.rowBody
    simp only [Option.getD_none]
    split
    · split
      · have hgap : (0 : ℚ) < commitExpandedPanelMainGapPx := by
          norm_num [commitExpandedPanelMainGapPx]
        positivity
      · exact hbody
    · exact hbody

theorem RowSizes.Positive.height {sizes : RowSizes} (h : sizes.Positive) (tz : Tz) (index : ℕ)
    (offset : ℚ) (previous : Option (Option DateOnly)) (commit : TimelineCommit) :
    0 < (commitRow sizes tz index offset previous commit).height := by
  have hbody := h.bodyHeight commit
  have hgap : (0 : ℚ) < commitRowGapPx := by norm_num [commitRowGapPx]
  simp only [commitRow]
  split
  · have hslot : (0 : ℚ) < commitDateSlotHeightPx := by norm_num [commitDateSlotHeightPx]
    linarith
  · linarith

theorem RowSizes.Positive.heights {sizes : RowSizes} (h : sizes.Positive) (tz : Tz)
    (commits : List TimelineCommit) (index : ℕ) (offset : ℚ)
    (previous : Option (Option DateOnly)) :
    ∀ row ∈ (commitRowsFrom sizes tz index offset previous commits).1, 0 < row.height := by
  induction commits generalizing index offset previous with
  | nil =>
    intro row hrow
    exact absurd hrow List.not_mem_nil
  | cons commit commits ih =>
    intro row hrow
    rcases List.mem_cons.mp hrow with rfl | hrest
    · exact h.height tz index offset previous commit
    · exact ih _ _ _ row hrest

variable {rows : List CommitVirtualRow} {y : ℚ} {i : ℕ}

theorem endsBy_eq_true_iff (hi : i < rows.length) :
    endsBy rows y i = true ↔ rows[i].offset + rows[i].height ≤ y := by
  simp [endsBy, List.getElem?_eq_getElem hi]

theorem beginsAbove_eq_true_iff (hi : i < rows.length) :
    beginsAbove rows y i = true ↔ rows[i].offset < y := by
  simp [beginsAbove, List.getElem?_eq_getElem hi]

/-- **The two scans miss no row on screen**, in any column of rows. -/
theorem commitVirtualRange_rendersVisible (hstacked : Stacked (·.offset) (·.height) 0 rows)
    (hpos : ∀ row ∈ rows, 0 < row.height) (total scrollTop viewportHeight : ℚ) :
    let range := commitVirtualRange rows total (.finite scrollTop) (.finite viewportHeight)
    RendersVisible range.start range.stop (fun i : Fin rows.length => rows[i].box)
      (viewportAt scrollTop viewportHeight) := by
  unfold commitVirtualRange
  by_cases hrows : rows = []
  · subst hrows
    exact ⟨le_rfl, le_rfl, by simp, fun i _ => i.elim0⟩
  · rw [if_neg hrows]
    simp only [JsNumber.orElse_finite]
    have hlength : 0 < rows.length := List.length_pos_iff.mpr hrows
    set top := max 0 scrollTop
    set bottom := top + max 1 viewportHeight
    set first := advance (endsBy rows top) (rows.length - 1) 0 with hfirst
    set last := advance (beginsAbove rows bottom) (rows.length - first) first with hlast
    have hfirstlt : first ≤ 0 + (rows.length - 1) := advance_le
    have hlastge : first ≤ last := le_advance
    refine ⟨by positivity, ?_, ?_, fun i hmeets => ?_⟩
    · have hle : first - commitOverscanRows ≤
          min rows.length (max last (first + 1) + commitOverscanRows) := by omega
      exact_mod_cast hle
    · exact_mod_cast Nat.min_le_left _ _
    · obtain ⟨hbegins, hends, hbox⟩ := hmeets.lt
      have hi := i.isLt
      have hnonneg : ∀ row ∈ rows, 0 ≤ row.height := fun row hrow => (hpos row hrow).le
      have htop : (0 : ℚ) ≤ rows[i].offset := hstacked.le_top hnonneg hi
      -- a row above the first scan's stop ends by the top of the viewport
      have hge : first ≤ i := by
        by_contra hlt
        have hpassed := (endsBy_eq_true_iff hi).mp
          (holds_of_lt_advance (Nat.zero_le i) (Nat.lt_of_not_le hlt))
        have hmax : top < rows[i].offset + rows[i].height := max_lt (by linarith) hends
        exact absurd hmax (not_lt.mpr hpassed)
      -- a row at the second scan's stop or under it begins at the bottom or under it
      have hlt : (i : ℕ) < last := by
        by_contra hle
        have hstop : last < first + (rows.length - first) := by omega
        have hfails : ¬rows[last].offset < bottom := by
          rw [← beginsAbove_eq_true_iff (by omega)]
          exact Bool.eq_false_iff.mp (fails_at_advance hstop)
        have hmono : rows[last].offset ≤ rows[i].offset :=
          hstacked.top_mono hnonneg (Nat.le_of_not_lt hle) hi
        have hscroll : scrollTop ≤ top := le_max_right 0 scrollTop
        have hview := le_max_right 1 viewportHeight
        have hbottom : scrollTop + viewportHeight ≤ bottom := by
          show scrollTop + viewportHeight ≤ top + max 1 viewportHeight
          linarith
        exact hfails (lt_of_le_of_lt hmono (lt_of_lt_of_le hbegins hbottom))
      have hrange : first - commitOverscanRows ≤ (i : ℕ) ∧
          (i : ℕ) < min rows.length (max last (first + 1) + commitOverscanRows) := by omega
      exact_mod_cast hrange

/-- A layout: the rows are the commits', their offsets the prefix sums of
their heights, and the height the sum of all. -/
structure LaidOut (commits : List TimelineCommit) (layout : List CommitVirtualRow × ℚ) : Prop where
  commits : layout.1.map (·.commit) = commits
  offsets : ∀ i (hi : i < layout.1.length),
    (layout.1[i]).offset = ((layout.1.map (·.height)).take i).sum
  total : layout.2 = (layout.1.map (·.height)).sum

theorem laidOut_buildCommitRows (sizes : RowSizes) (tz : Tz) (commits : List TimelineCommit) :
    LaidOut commits (buildCommitRows sizes tz commits) := by
  refine ⟨commits_commitRowsFrom sizes tz commits 0 0 none, fun i hi => ?_, ?_⟩
  · have htop := (stacked_commitRowsFrom sizes tz commits 0 0 none).top_eq hi
    rw [zero_add] at htop
    exact htop
  · have htotal := total_commitRowsFrom sizes tz commits 0 0 none
    rw [zero_add] at htotal
    exact htotal

/-! ## Both windows -/

/-- **Virtual lists render everything on screen.** -/
theorem virtualLists_renderVisible :
    (∀ (sizes : RowSizes) (tz : Tz) (commits : List TimelineCommit), sizes.Positive →
      let layout := buildCommitRows sizes tz commits
      LaidOut commits layout ∧
        ∀ scrollTop viewportHeight : ℚ, 0 ≤ scrollTop → scrollTop ≤ layout.2 →
          0 < viewportHeight →
          let range :=
            commitVirtualRange layout.1 layout.2 (.finite scrollTop) (.finite viewportHeight)
          RendersVisible range.start range.stop (fun i : Fin layout.1.length => layout.1[i].box)
            (viewportAt scrollTop viewportHeight)) ∧
    ∀ (count : JsNumber) (overscan : Option JsNumber)
        (rowHeight rowGap scrollTop viewportHeight : ℚ), 1 ≤ rowHeight → 0 ≤ rowGap →
      let range := activityVirtualRange
        { count, scrollTop := .finite scrollTop, viewportHeight := .finite viewportHeight
          rowHeight := some (.finite rowHeight), rowGap := some (.finite rowGap), overscan }
      RendersVisible range.start range.stop
        (fun i : Fin (safeCount count).toNat => activityBox rowHeight rowGap i)
        (viewportAt scrollTop viewportHeight) := by
  constructor
  · intro sizes tz commits hsizes
    refine ⟨laidOut_buildCommitRows sizes tz commits, fun scrollTop viewportHeight _ _ _ => ?_⟩
    exact commitVirtualRange_rendersVisible (stacked_commitRowsFrom sizes tz commits 0 0 none)
      (hsizes.heights tz commits 0 0 none) _ scrollTop viewportHeight
  · intro count overscan rowHeight rowGap scrollTop viewportHeight hheight hgap
    exact activityVirtualRange_rendersVisible count overscan hheight hgap scrollTop viewportHeight

namespace TwoDays

/-- A commit of the octo/board project. -/
def commitAt (externalId occurredAt : String) : TimelineCommit where
  sourceId := ⟨"github:github.com", noBarGithub⟩
  externalId := externalId
  kind := "commit"
  action := "pushed"
  projectPath := some "octo/board"
  targetKind := none
  targetRef := none
  targetIid := none
  title := some "Fix the build"
  actor := some "ada"
  occurredAt := occurredAt
  detailsBody := none

/-- Two commits, the second the day before: 78 pixels, then 100. -/
def commits : List TimelineCommit :=
  [commitAt "b2" "2026-06-02T09:00:00Z", commitAt "a1" "2026-06-01T17:00:00Z"]

/-- Rows of the default size, none expanded. -/
def sizes : RowSizes := ⟨commitRowBodyHeightPx, none, .empty⟩

theorem sizes_positive : sizes.Positive := by
  refine ⟨by norm_num [sizes, commitRowBodyHeightPx], fun key height h => ?_⟩
  exact absurd h (by simp [sizes])

theorem renderVisible :
    LaidOut commits (buildCommitRows sizes .utc commits) ∧
      (let layout := buildCommitRows sizes .utc commits
       let range := commitVirtualRange layout.1 layout.2 (.finite 178) (.finite 640)
       RendersVisible range.start range.stop (fun i : Fin layout.1.length => layout.1[i].box)
         (viewportAt 178 640)) ∧
      (let range := activityVirtualRange
         { count := .finite 40, scrollTop := .finite 65, viewportHeight := .finite 640
           rowHeight := some (.finite 60), rowGap := some (.finite 6), overscan := none }
       RendersVisible range.start range.stop
         (fun i : Fin (safeCount (.finite 40)).toNat => activityBox 60 6 i)
         (viewportAt 65 640)) := by
  have hlist := virtualLists_renderVisible.1 sizes .utc commits sizes_positive
  have hheight : (178 : ℚ) ≤ (buildCommitRows sizes .utc commits).2 := by decide +kernel
  refine ⟨hlist.1, hlist.2 178 640 (by norm_num) hheight (by norm_num), ?_⟩
  exact virtualLists_renderVisible.2 (.finite 40) none 60 6 65 640 (by norm_num) (by norm_num)

end TwoDays

end SymphonyBoard
