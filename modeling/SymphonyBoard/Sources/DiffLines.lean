import SymphonyBoard.Common.Markup
/-!
# Counting the lines of a patch

`countDiffLines` of `src/sources/commit-files.ts`, which reads the changed
lines off a raw unified diff. Its walk goes from newline to newline and
remembers whether a hunk has started; `walk_intercalate` turns it into a
fold over the lines. In a hunk the first unit of a line is its mark, so a
content that looks like a header is never read as one.
-/

namespace SymphonyBoard

/-- The line feed, as a unit of text. -/
def unitNewline : UInt16 := 10

/-! ## The walk -/

/-- The lines counted so far, and whether the scan is inside a hunk. -/
structure DiffScan where
  additions : ℕ
  deletions : ℕ
  inHunk : Bool
deriving DecidableEq

/-- `diff.startsWith("@@", start)`. -/
def isHunkHeader (rest : JsText) : Bool := rest.take 2 = [64, 64]

/-- The line that starts here. Nothing is read off an empty one. -/
def DiffScan.line (s : DiffScan) (rest : JsText) : DiffScan :=
  match rest with
  | [] => s
  | head :: _ =>
    if head = unitNewline then s
    else if !s.inHunk then
      if isHunkHeader rest then { s with inHunk := true } else s
    else if isHunkHeader rest then s
    else if head = 43 then { s with additions := s.additions + 1 }
    else if head = 45 then { s with deletions := s.deletions + 1 }
    else s

/-- The scan goes over the text line by line. -/
def DiffScan.walk (s : DiffScan) (rest : JsText) : DiffScan :=
  match _h : rest.dropWhile (· ≠ unitNewline) with
  | [] => s.line rest
  | _ :: next => walk (s.line rest) next
termination_by rest.length
decreasing_by
  have hsuffix := (List.dropWhile_suffix (l := rest) (· ≠ unitNewline)).length_le
  rw [_h, List.length_cons] at hsuffix
  omega

/-- `countDiffLines`: additions and deletions. What is no text has none. -/
def countDiffLines (diff : Option JsText) : ℕ × ℕ :=
  match diff with
  | none => (0, 0)
  | some diff =>
    if diff = [] then (0, 0)
    else
      let s := DiffScan.walk ⟨0, 0, false⟩ diff
      (s.additions, s.deletions)

/-! ## Unified diffs -/

/-- A text on one line. -/
structure LineText where
  units : JsText
  oneLine : unitNewline ∉ units

/-- What a line of a hunk is. -/
inductive DiffMark where
  | context | added | removed
deriving DecidableEq

/-- The unit a line of a hunk starts with. -/
def DiffMark.unit : DiffMark → UInt16
  | .context => 32
  | .added => 43
  | .removed => 45

/-- A line of a hunk. -/
structure DiffLine where
  mark : DiffMark
  content : LineText

/-- A hunk. Its header is `@@` with the ranges and the section after it. -/
structure DiffHunk where
  header : LineText
  lines : List DiffLine

/-- What a diff may have before its first hunk: `diff`, `index`, `---` and
`+++` lines. -/
structure DiffPreamble extends LineText where
  notHunk : isHunkHeader units = false

/-- The line as the diff writes it. -/
def DiffLine.text (l : DiffLine) : JsText := l.mark.unit :: l.content.units

/-- The hunk as the diff writes it: the header, then its lines. -/
def DiffHunk.texts (h : DiffHunk) : List JsText :=
  (64 :: 64 :: h.header.units) :: h.lines.map DiffLine.text

/-- The diff's lines: what stands before the hunks, then the hunks. -/
def diffTexts (preamble : List DiffPreamble) (hunks : List DiffHunk) : List JsText :=
  preamble.map (·.units) ++ hunks.flatMap DiffHunk.texts

/-- A unified diff, with or without a newline at its end. -/
def renderDiff (preamble : List DiffPreamble) (hunks : List DiffHunk) (newlineAtEnd : Bool) :
    JsText :=
  [unitNewline].intercalate
    (diffTexts preamble hunks ++ if newlineAtEnd then [[]] else [])

/-! ## The walk is a fold over lines -/

variable {s : DiffScan}

/-- What a line says does not depend on what follows it. -/
theorem line_append {l : JsText} (hl : unitNewline ∉ l) (rest : JsText) :
    s.line (l ++ unitNewline :: rest) = s.line l := by
  match l with
  | [] =>
    simp only [List.nil_append, DiffScan.line, if_true]
  | [a] =>
    have hlong : isHunkHeader ([a] ++ unitNewline :: rest) = false := by
      simp [isHunkHeader, unitNewline]
    have hshort : isHunkHeader [a] = false := by simp [isHunkHeader]
    rw [List.cons_append, List.nil_append] at hlong ⊢
    simp only [DiffScan.line, hlong, hshort]
  | a :: b :: l => rfl

theorem walk_line {l : JsText} (hl : unitNewline ∉ l) : s.walk l = s.line l := by
  have hkeep : ∀ u ∈ l, decide (u ≠ unitNewline) = true := fun u hu =>
    decide_eq_true fun heq : u = unitNewline => hl (heq ▸ hu)
  have hdrop : l.dropWhile (· ≠ unitNewline) = [] := by
    rw [← List.append_nil l, List.dropWhile_append_of_pos hkeep]
    rfl
  rw [DiffScan.walk]
  split
  · rfl
  · rename_i heq
    rw [hdrop] at heq
    cases heq

theorem walk_append {l : JsText} (hl : unitNewline ∉ l) (rest : JsText) :
    s.walk (l ++ unitNewline :: rest) = (s.line l).walk rest := by
  have hdrop : (l ++ unitNewline :: rest).dropWhile (· ≠ unitNewline) = unitNewline :: rest := by
    have hkeep : ∀ u ∈ l, decide (u ≠ unitNewline) = true := fun u hu =>
      decide_eq_true fun heq : u = unitNewline => hl (heq ▸ hu)
    rw [List.dropWhile_append_of_pos hkeep]
    exact List.dropWhile_cons_of_neg (by simp)
  rw [DiffScan.walk]
  split
  · rename_i heq
    rw [hdrop] at heq
    cases heq
  · rename_i heq
    rw [hdrop] at heq
    obtain ⟨-, rfl⟩ := List.cons.inj heq
    rw [line_append hl]

theorem walk_intercalate {lines : List JsText} (hlines : ∀ l ∈ lines, unitNewline ∉ l) :
    s.walk ([unitNewline].intercalate lines) = lines.foldl DiffScan.line s := by
  induction lines generalizing s with
  | nil => exact walk_line List.not_mem_nil
  | cons l lines ih =>
    have hl : unitNewline ∉ l := hlines l List.mem_cons_self
    cases lines with
    | nil =>
      rw [List.intercalate_singleton]
      exact walk_line hl
    | cons m lines =>
      rw [List.intercalate_cons_cons, List.append_assoc, List.cons_append, List.nil_append,
        walk_append hl, ih fun k hk => hlines k (List.mem_cons_of_mem l hk)]
      rfl

/-! ## What the lines add up to -/

theorem foldl_preamble (preamble : List DiffPreamble) (hs : s.inHunk = false) :
    (preamble.map (·.units)).foldl DiffScan.line s = s := by
  induction preamble with
  | nil => rfl
  | cons p preamble ih =>
    have hline : s.line p.units = s := by
      rw [DiffScan.line.eq_def]
      split
      · rfl
      · rw [hs, p.notHunk]
        simp
    rw [List.map_cons, List.foldl_cons, hline, ih]

/-- A line of a hunk counts by its mark, whatever its content. -/
theorem line_text (hs : s.inHunk = true) (l : DiffLine) :
    s.line l.text =
      { s with
        additions := s.additions + if l.mark = .added then 1 else 0
        deletions := s.deletions + if l.mark = .removed then 1 else 0 } := by
  have hheader : isHunkHeader l.text = false := by
    have hne : l.mark.unit ≠ 64 := by
      cases l.mark <;> decide
    simp [isHunkHeader, DiffLine.text, hne]
  obtain ⟨additions, deletions, inHunk⟩ := s
  obtain rfl : inHunk = true := hs
  rw [DiffLine.text] at hheader ⊢
  simp only [DiffScan.line, hheader]
  cases l.mark <;> simp [DiffMark.unit, unitNewline]

theorem foldl_lines (hs : s.inHunk = true) (lines : List DiffLine) :
    (lines.map DiffLine.text).foldl DiffScan.line s =
      { s with
        additions := s.additions + lines.countP (·.mark = .added)
        deletions := s.deletions + lines.countP (·.mark = .removed) } := by
  induction lines generalizing s with
  | nil => rfl
  | cons l lines ih =>
    have hopen : (s.line l.text).inHunk = true := by
      rw [line_text hs]
      exact hs
    rw [List.map_cons, List.foldl_cons, ih hopen, line_text hs, List.countP_cons,
      List.countP_cons]
    simp only [decide_eq_true_eq, DiffScan.mk.injEq, and_true]
    omega

/-- A hunk's header opens it, inside another or not. -/
theorem foldl_texts (h : DiffHunk) :
    h.texts.foldl DiffScan.line s =
      { additions := s.additions + h.lines.countP (·.mark = .added)
        deletions := s.deletions + h.lines.countP (·.mark = .removed)
        inHunk := true } := by
  have hheader : s.line (64 :: 64 :: h.header.units) = { s with inHunk := true } := by
    have hopen : isHunkHeader (64 :: 64 :: h.header.units) = true := rfl
    have hne : ¬(64 : UInt16) = unitNewline := by decide
    obtain ⟨additions, deletions, inHunk⟩ := s
    rw [DiffScan.line, if_neg hne, hopen]
    cases inHunk <;> rfl
  rw [DiffHunk.texts, List.foldl_cons, hheader]
  exact foldl_lines rfl h.lines

theorem foldl_hunks (hunks : List DiffHunk) :
    ((hunks.flatMap DiffHunk.texts).foldl DiffScan.line s).additions =
        s.additions + (hunks.flatMap (·.lines)).countP (·.mark = .added) ∧
      ((hunks.flatMap DiffHunk.texts).foldl DiffScan.line s).deletions =
        s.deletions + (hunks.flatMap (·.lines)).countP (·.mark = .removed) := by
  induction hunks generalizing s with
  | nil => exact ⟨rfl, rfl⟩
  | cons h hunks ih =>
    obtain ⟨hadded, hremoved⟩ := @ih (h.texts.foldl DiffScan.line s)
    rw [List.flatMap_cons, List.flatMap_cons, List.foldl_append, List.countP_append,
      List.countP_append, hadded, hremoved, foldl_texts]
    constructor <;> dsimp only <;> omega

theorem oneLine_diffTexts {preamble : List DiffPreamble} {hunks : List DiffHunk} :
    ∀ l ∈ diffTexts preamble hunks, unitNewline ∉ l := by
  intro l hl
  rcases List.mem_append.mp hl with hl | hl
  · obtain ⟨p, -, rfl⟩ := List.mem_map.mp hl
    exact p.oneLine
  obtain ⟨h, -, hl⟩ := List.mem_flatMap.mp hl
  rcases List.mem_cons.mp hl with rfl | hl
  · have hne : unitNewline ≠ 64 := by decide
    simp [hne, h.header.oneLine]
  · obtain ⟨d, -, rfl⟩ := List.mem_map.mp hl
    have hne : unitNewline ≠ d.mark.unit := by
      cases d.mark <;> decide
    rw [DiffLine.text, List.mem_cons, not_or]
    exact ⟨hne, d.content.oneLine⟩

/-- **Every changed line is counted, and nothing else**, whatever the lines
hold and whatever stands before the first hunk. -/
theorem countDiffLines_renderDiff (preamble : List DiffPreamble) (hunks : List DiffHunk)
    (newlineAtEnd : Bool) :
    countDiffLines (some (renderDiff preamble hunks newlineAtEnd)) =
      ((hunks.flatMap (·.lines)).countP (·.mark = .added),
        (hunks.flatMap (·.lines)).countP (·.mark = .removed)) := by
  have hlines : ∀ l ∈ diffTexts preamble hunks ++ (if newlineAtEnd then [[]] else []),
      unitNewline ∉ l := by
    intro l hl
    rcases List.mem_append.mp hl with hl | hl
    · exact oneLine_diffTexts l hl
    · split at hl
      · rw [List.mem_singleton.mp hl]
        exact List.not_mem_nil
      · cases hl
  have hend : ∀ s : DiffScan, (if newlineAtEnd then [[]] else ([] : List JsText)).foldl
      DiffScan.line s = s := by
    intro s
    split <;> rfl
  have hwalk : DiffScan.walk ⟨0, 0, false⟩ (renderDiff preamble hunks newlineAtEnd) =
      (hunks.flatMap DiffHunk.texts).foldl DiffScan.line ⟨0, 0, false⟩ := by
    rw [renderDiff, walk_intercalate hlines, List.foldl_append, hend, diffTexts,
      List.foldl_append, foldl_preamble preamble rfl]
  obtain ⟨hadded, hremoved⟩ := @foldl_hunks ⟨0, 0, false⟩ hunks
  rw [← hwalk, Nat.zero_add] at hadded hremoved
  rw [countDiffLines, ← hadded, ← hremoved]
  dsimp only
  split
  · rename_i hempty
    rw [hempty, walk_line List.not_mem_nil]
    rfl
  · rfl

end SymphonyBoard
