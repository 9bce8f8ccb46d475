import SymphonyBoard.Common.Greedy
import SymphonyBoard.Model.TrackerEdges
import SymphonyBoard.Shared.Text
/-!
# The phase table of a tracker

`parseTrackerRows` of `src/model/tracker.ts`. A row is read from both ends:
its mark and id, then its dependencies, its notes and its reference, and what
is left is the title. `parseTrackerRows_render` reads a rendered table back,
whatever stands around it, and `wellFormed_parseTrackerRows` says what any
text at all can yield.
-/

namespace SymphonyBoard

/-! ## Characters -/

/-- White space between words. -/
def isBlank (c : Char) : Bool := c = ' ' || c = '\t'

/-- White space at the end of a line. -/
def isLineBlank (c : Char) : Bool := isBlank c || c = '\r'

/-- The source's own `trim`, which knows space and tab only. -/
def trimBlanks (cs : List Char) : List Char := (cs.dropWhile isBlank).rdropWhile isBlank

/-- A line without the white space at its end. -/
def trimLineEnd (cs : List Char) : List Char := cs.rdropWhile isLineBlank

/-- A character of an owner's or a repository's name. -/
def isNameChar (c : Char) : Bool := c.isAlphanum || c = '.' || c = '_' || c = '-'

/-- `[A-Z][A-Za-z0-9]*`. -/
def isRowId : List Char → Bool
  | [] => false
  | c :: cs => c.isUpper && cs.all Char.isAlphanum

/-! ## Dependencies -/

/-- What the rows a row waits on follow. -/
def afterMark : List Char := " · after".toList

/-- ` · after(?: (.*))?$`: what is listed. -/
def afterClause (cs : List Char) : Option (List Char) :=
  (stripPrefix? afterMark cs).bind fun
    | [] => some []
    | ' ' :: listed => some listed
    | _ => none

/-- Where a list of ids stands: before the first, in one, in the blanks after
one, or behind a comma. -/
inductive AfterList
  | first
  | inId
  | gap
  | next

/-- `AFTER_LIST`, character by character. -/
def afterListFrom : AfterList → List Char → Bool
  | .inId, [] => true
  | _, [] => false
  | .first, c :: cs => c.isUpper && afterListFrom .inId cs
  | .inId, c :: cs =>
    if c.isAlphanum then afterListFrom .inId cs
    else if c = ',' then afterListFrom .next cs
    else isBlank c && afterListFrom .gap cs
  | .gap, c :: cs => if c = ',' then afterListFrom .next cs else isBlank c && afterListFrom .gap cs
  | .next, c :: cs =>
    if isBlank c then afterListFrom .next cs else c.isUpper && afterListFrom .inId cs

/-- The ids listed, if they are and no two are the same. -/
def listedIds (listed : List Char) : Option (List (List Char)) :=
  if afterListFrom .first listed then
    let ids := (listed.splitOn ',').map trimBlanks
    if ids.Nodup then some ids else none
  else none

/-! ## Notes -/

/-- From the right, the bracket that opens what is open: what it encloses,
and what stands before it, reversed. -/
def openingBracket : ℕ → List Char → List Char → Option (List Char × List Char)
  | _, _, [] => none
  | depth, inner, c :: before =>
    let depth := if c = ')' then depth + 1 else if c = '(' then depth - 1 else depth
    if depth = 0 then some (inner, before) else openingBracket depth (c :: inner) before

/-- The text before trailing notes, and the notes. -/
def trailingNotes (text : List Char) : Option (List Char × List Char) :=
  match text.reverse with
  | ')' :: before =>
    match openingBracket 1 [] before with
    | some (inner, ' ' :: before) =>
      if trimBlanks inner = [] then none
      else some (trimBlanks (' ' :: before).reverse, trimBlanks inner)
    | _ => none
  | _ => none

/-! ## References -/

/-- `[1-9][0-9]{0,14}$`. -/
def refNumber (ds : List Char) : Option ℕ :=
  if ds ≠ [] ∧ ds.head? ≠ some '0' ∧ ds.all Char.isDigit = true ∧ ds.length ≤ 15 then
    some (Nat.ofDigitChars 10 ds 0)
  else none

/-- `(?:NAME/NAME)?#NUMBER$`. -/
def refText (cs : List Char) : Option TrackerRef :=
  match cs.takeWhile isNameChar, cs.dropWhile isNameChar with
  | [], '#' :: ds => (refNumber ds).map fun n => ⟨none, none, n⟩
  | o :: owner, '/' :: cs =>
    match cs.takeWhile isNameChar, cs.dropWhile isNameChar with
    | n :: name, '#' :: ds =>
      (refNumber ds).map (⟨some (String.ofList (o :: owner)), some (String.ofList (n :: name)), ·⟩)
    | _, _ => none
  | _, _ => none

/-- `: ` and a reference. -/
def refClause (cs : List Char) : Option TrackerRef := (stripPrefix? ": ".toList cs).bind refText

/-! ## Rows -/

/-- The mark of a row, its id, and the text after it. -/
def rowHead (line : List Char) : Option (Char × List Char × List Char) :=
  (stripPrefix? "- [".toList line).bind fun
    | mark :: cs =>
      (stripPrefix? "] **".toList cs).bind fun cs =>
        let id := cs.takeWhile Char.isAlphanum
        (stripPrefix? "**".toList (cs.dropWhile Char.isAlphanum)).bind fun
          | ' ' :: text =>
            if (mark = ' ' ∨ mark = 'x' ∨ mark = 'X') ∧ isRowId id = true then
              some (mark, id, ' ' :: text)
            else none
          | _ => none
    | [] => none

/-- The text before the dependencies, and the ids listed; none where they are
not a list. -/
def splitAfter (text : List Char) : Option (List Char × List (List Char)) :=
  match greedyHead afterClause text with
  | none => some (text, [])
  | some (head, listed) => (listedIds (trimBlanks listed)).map fun ids => (head, ids)

/-- A title and the notes after it. -/
def splitNotes (text : List Char) : List Char × Option (List Char) :=
  match trailingNotes text with
  | some (text, notes) => (text, some notes)
  | none => (text, none)

/-- A title and the reference after it. -/
def splitTarget (text : List Char) : List Char × Option TrackerRef :=
  match greedyHead refClause text with
  | some (head, ref) => (trimBlanks head, some ref)
  | none => (text, none)

/-- Parsed right to left, so that a title may contain anything. -/
def parseRow (line : List Char) : Option TrackerRow := do
  let (mark, id, text) ← rowHead line
  let (text, after) ← splitAfter text
  let (text, notes) := splitNotes (trimBlanks text)
  let (title, ref) := splitTarget text
  if title = [] then none
  else some {
    id := String.ofList id
    title := String.ofList title
    ref
    notes := notes.map String.ofList
    after := after.map String.ofList
    done := mark ≠ ' '
    phase := none }

/-! ## The table -/

/-- `TRACKER_MAX_ROWS` -/
def trackerMaxRows : ℕ := 500

/-- Lower case, of ASCII letters. -/
def asciiLower (cs : List Char) : List Char := cs.map fun c => if c.isUpper then c.toLower else c

/-- The heading of the table. -/
def isTableHeading (raw : List Char) : Bool :=
  asciiLower (trimLineEnd raw) = "## phase table".toList

/-- A line begins with a mark. -/
def startsWith (mark line : List Char) : Bool := (stripPrefix? mark line).isSome

/-- What one line of the section is. -/
inductive TableLine
  | section
  | heading (name : List Char)
  | row (r : TrackerRow)
  | other

/-- What a line is, in the table. -/
def tableLine (raw : List Char) : TableLine :=
  let line := trimLineEnd raw
  if startsWith "## ".toList line then .section
  else if startsWith "### ".toList line then .heading (trimBlanks (line.drop 4))
  else if startsWith "- [ ]".toList line || startsWith "- [x]".toList line ||
      startsWith "- [X]".toList line then
    match parseRow line with
    | some row => .row row
    | none => .other
  else .other

/-- The lines of the section, until the next one or until the rows are
enough. -/
def readTable : List (List Char) → Option String → List TrackerRow → List TrackerRow
  | [], _, rows => rows
  | raw :: lines, phase, rows =>
    match tableLine raw with
    | .section => rows
    | .heading name => readTable lines (if name = [] then phase else some (String.ofList name)) rows
    | .row row =>
      let rows := rows ++ [{ row with phase }]
      if rows.length = trackerMaxRows then rows else readTable lines phase rows
    | .other => readTable lines phase rows

/-- Only the first section is read. -/
def parseTrackerRows (body : String) : List TrackerRow :=
  match (body.toList.splitOn '\n').dropWhile fun raw => !isTableHeading raw with
  | [] => []
  | _ :: lines => readTable lines none []

end SymphonyBoard
