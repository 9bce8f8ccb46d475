import Mathlib.Algebra.GroupWithZero.Nat
import Mathlib.Data.Rat.Defs
import SymphonyBoard.Common.Markup
import SymphonyBoard.Shared.Text
/-!
# Live events as Telegram messages

`src/live/telegram.ts`: the rendering of a live event in the messenger's
HTML, and the cut at its limit the bridge makes before posting. Every field
is escaped; the body is cut so that it fits, but the lines above it are not,
and where these are too long the cut of the whole message may fall inside
an element. `postedText_valid_iff` says exactly when it does.
-/

namespace SymphonyBoard

open scoped TextUnits

/-! ## Escaping -/

/-- `value.replace(/u/g, by)` -/
def replaceUnit (u : UInt16) (by_ : JsText) (value : JsText) : JsText :=
  value.flatMap fun v => if v = u then by_ else [v]

/-- A text with the characters of markup escaped. -/
def escapeHtml (value : JsText) : JsText :=
  replaceUnit unitQuote (utf16 "&quot;") (replaceUnit unitGt (utf16 "&gt;")
    (replaceUnit unitLt (utf16 "&lt;") (replaceUnit unitAmp (utf16 "&amp;") value)))

/-- `text.replace(/&[a-z]{0,5}$/i, "")` -/
def dropPartialEntity (text : JsText) : JsText :=
  match text.reverse.dropWhile isLetterUnit with
  | [] => text
  | u :: rest =>
    if u = unitAmp ∧ (text.reverse.takeWhile isLetterUnit).length ≤ 5 then rest.reverse else text

/-- Escaped text cut to a limit, and not inside an entity. -/
def clampHtml (text : JsText) (limit : ℕ) : JsText :=
  if text.length ≤ limit then text else dropPartialEntity (text.take limit)

/-- `TELEGRAM_MESSAGE_LIMIT` -/
def telegramMessageLimit : ℕ := 4096

/-- `MAX_BODY_LINES`: no preview is longer, whatever is configured. -/
def maxBodyLines : ℕ := 10

/-! ## The body -/

/-- A code unit that is a character of a kind. -/
def isUnitOf (p : Char → Bool) (u : UInt16) : Bool := p (Char.ofNat u.toNat)

/-- A character of a marker's token. -/
def isTokenUnit : UInt16 → Bool :=
  isUnitOf fun c => c.isAlphanum || c = '.' || c = '_' || c = '-'

/-- `FORGE_CLI_LEGACY_LEDGER_LINE`, of one line. -/
def isLedgerLine (line : JsText) : Bool :=
  match (utf16 "forge-cli review ledger · generation ").isPrefixOf? line with
  | none => false
  | some rest =>
    rest.takeWhile (isUnitOf Char.isDigit) ≠ [] &&
    match (utf16 " · ").isPrefixOf? (rest.dropWhile (isUnitOf Char.isDigit)) with
    | none => false
    | some rest =>
      rest.takeWhile isTokenUnit ≠ [] &&
      match (utf16 " · head ").isPrefixOf? (rest.dropWhile isTokenUnit) with
      | none => false
      | some rest => rest ≠ [] && rest.all isTokenUnit

/-- A line of the review ledger is replaced by one that says so. -/
def neutralLine (line : JsText) : JsText :=
  if isLedgerLine line then utf16 "Review checkpoint — review progress recorded." else line

/-- Ledger lines replaced by the notice; `line` is the current line,
reversed. -/
def neutralLines (line : JsText) : JsText → JsText
  | [] => neutralLine line.reverse
  | u :: s =>
    if isUnitOf isLineTerminator u then neutralLine line.reverse ++ u :: neutralLines [] s
    else neutralLines (u :: line) s

/-- `indexOf`: what stands before the first `needle`, and after it. -/
def cutAt (needle : JsText) : JsText → Option (JsText × JsText)
  | [] => none
  | u :: s =>
    match needle.isPrefixOf? (u :: s) with
    | some rest => some ([], rest)
    | none => (cutAt needle s).map fun cut => (u :: cut.1, cut.2)

theorem isPrefixOf?_eq_some {needle s rest : JsText} (h : needle.isPrefixOf? s = some rest) :
    s = needle ++ rest := by
  induction needle generalizing s with
  | nil => exact Option.some.inj h
  | cons v needle ih =>
    cases s with
    | nil => cases h
    | cons u s =>
      rw [List.isPrefixOf?] at h
      split at h
      · rename_i huv
        rw [eq_of_beq huv, ih h, List.cons_append]
      · cases h

theorem cutAt_eq_some {needle s before rest : JsText} (h : cutAt needle s = some (before, rest)) :
    s = before ++ needle ++ rest := by
  induction s generalizing before with
  | nil => cases h
  | cons u s ih =>
    rw [cutAt] at h
    split at h
    · rename_i rest' hprefix
      obtain ⟨rfl, rfl⟩ := Prod.mk.inj (Option.some.inj h)
      exact isPrefixOf?_eq_some hprefix
    · obtain ⟨cut, hcut, heq⟩ := Option.map_eq_some_iff.mp h
      obtain ⟨rfl, rfl⟩ := Prod.mk.inj heq
      rw [ih hcut, List.cons_append, List.cons_append]

/-- The text without the comments that are forge-cli's. -/
def stripMarkers (neutral : JsText) : JsText :=
  match _hopen : cutAt (utf16 "<!-- forge-cli:") neutral with
  | none => neutral
  | some (before, rest) =>
    match _hclose : cutAt (utf16 "-->") rest with
    | none => before
    | some (_, rest) => before ++ stripMarkers rest
termination_by neutral.length
decreasing_by
  have hlength := congrArg List.length (cutAt_eq_some _hopen)
  have hlength' := congrArg List.length (cutAt_eq_some _hclose)
  simp only [List.length_append] at hlength hlength'
  have hneedle : (utf16 "-->").length = 3 := rfl
  omega

/-- `/\n{3,}/g` replaced by two; `run` counts the breaks just read. -/
def collapseBreaks (run : ℕ) : JsText → JsText
  | [] => List.replicate (min run 2) 10
  | u :: s =>
    if u = 10 then collapseBreaks (run + 1) s
    else List.replicate (min run 2) 10 ++ u :: collapseBreaks 0 s

/-- `trim` on code units. -/
def trimUnits (s : JsText) : JsText :=
  ((s.dropWhile (isUnitOf isTrimmed)).reverse.dropWhile (isUnitOf isTrimmed)).reverse

/-- A body without markers, and with its ledger lines and runs of blank lines reduced. -/
def sanitizeLiveBody (body : JsText) : JsText :=
  trimUnits (collapseBreaks 0 (stripMarkers (neutralLines [] body)))

/-! ## Labels -/

/-- Who an event is by. -/
structure LiveActor where
  login : Option JsText
  displayName : Option JsText

/-- `number` as a template prints it. -/
structure LiveTarget where
  projectPath : Option JsText
  number : Option JsText
  title : Option JsText
  url : Option JsText

/-- What the rendering reads of a live event. -/
structure TelegramEventInput where
  sourceId : JsText
  receivedAt : JsText
  occurredAt : Option JsText
  action : Option JsText
  category : JsText
  actor : Option LiveActor
  target : Option LiveTarget
  title : Option JsText
  body : Option JsText
  url : Option JsText
  merged : Bool

/-- `CATEGORY_EMOJI`; an object answers to the names it inherits too. -/
def categoryEmoji : List (JsText × JsText) :=
  [("issue", "📌"), ("change_request", "🔀"), ("comment", "💬"), ("review", "🔍"),
    ("review_comment", "💬"), ("review_thread", "🧵"), ("push", "⬆️"), ("pipeline", "⚙️"),
    ("__proto__", "[object Object]"), ("constructor", "function Object() { [native code] }"),
    ("hasOwnProperty", "function hasOwnProperty() { [native code] }"),
    ("isPrototypeOf", "function isPrototypeOf() { [native code] }"),
    ("propertyIsEnumerable", "function propertyIsEnumerable() { [native code] }"),
    ("toLocaleString", "function toLocaleString() { [native code] }"),
    ("toString", "function toString() { [native code] }"),
    ("valueOf", "function valueOf() { [native code] }"),
    ("__defineGetter__", "function __defineGetter__() { [native code] }"),
    ("__defineSetter__", "function __defineSetter__() { [native code] }"),
    ("__lookupGetter__", "function __lookupGetter__() { [native code] }"),
    ("__lookupSetter__", "function __lookupSetter__() { [native code] }")].map
      fun p => (utf16 p.1, utf16 p.2)

/-- The sign of an event's category. -/
def eventEmoji (event : TelegramEventInput) : JsText :=
  (categoryEmoji.lookup event.category).getD (utf16 "📣")

/-- A closed change request that was merged counts as merged. -/
def effectiveAction (event : TelegramEventInput) : Option JsText :=
  if event.category = utf16 "change_request" ∧ event.action = some (utf16 "closed") ∧ event.merged then
    some (utf16 "merged")
  else event.action

/-- The project of the target, or the source. -/
def repoLabel (event : TelegramEventInput) : JsText :=
  (event.target.bind (·.projectPath)).getD event.sourceId

/-- The name an event is shown to be by. -/
def actorLabel (event : TelegramEventInput) : Option JsText :=
  event.actor.bind fun actor => actor.displayName.or actor.login

/-- The number of the target. -/
def numberLabel (event : TelegramEventInput) : Option JsText :=
  (event.target.bind (·.number)).map (utf16 "#" ++ ·)

/-- A text the source takes for true. -/
def truthy (s : Option JsText) : Option JsText := s.filter (· ≠ [])

/-! ## The message -/

/-- The category and the action. -/
def headerBits (event : TelegramEventInput) : JsText :=
  (utf16 " ").intercalate
    ([some event.category, effectiveAction event].filterMap truthy)

/-- The first line: the sign, the project, what happened, and the number. -/
def header (event : TelegramEventInput) : JsText :=
  eventEmoji event ++ utf16 " <b>" ++ escapeHtml (repoLabel event) ++ utf16 "</b> · " ++
    escapeHtml (headerBits event) ++
      (numberLabel event).elim [] fun num => utf16 " " ++ escapeHtml num

/-- The title: a commit's own, otherwise the target's. -/
def titleText (event : TelegramEventInput) : Option JsText :=
  truthy (if event.category = utf16 "commit" then event.title.or (event.target.bind (·.title))
    else (event.target.bind (·.title)).or event.title)

/-- The address of the event, or of its target. -/
def eventUrl (event : TelegramEventInput) : Option JsText :=
  truthy (event.url.or (event.target.bind (·.url)))

/-- A title that links to an address. -/
def linkedTitle (title url : JsText) : JsText :=
  utf16 "<a href=\"" ++ escapeHtml url ++ utf16 "\">" ++ escapeHtml title ++ utf16 "</a>"

/-- The second line: the title, the address, or both. -/
def titleLine (event : TelegramEventInput) : JsText :=
  match titleText event, eventUrl event with
  | some title, some url => utf16 "\n" ++ linkedTitle title url
  | some title, none => utf16 "\n" ++ escapeHtml title
  | none, some url => utf16 "\n" ++ escapeHtml url
  | none, none => []

/-- The third line: who and when. -/
def metaLine (event : TelegramEventInput) : JsText :=
  let when_ := truthy (some (event.occurredAt.getD event.receivedAt))
  let metaBits := ((truthy (actorLabel event)).map (utf16 "👤 " ++ escapeHtml ·)).toList ++
    (when_.map (utf16 "🕒 " ++ escapeHtml ·)).toList
  if metaBits = [] then [] else utf16 "\n" ++ (utf16 " · ").intercalate metaBits

/-- The message without its body. -/
def messageHead (event : TelegramEventInput) : JsText := header event ++ titleLine event ++ metaLine event

/-- What stands for the rest of a body. -/
def ellipsis : JsText := utf16 "\n…"

/-- The line limit; `bodyLines` is a number, if it is finite. -/
def lineCap (bodyLines : Option ℚ) : ℕ :=
  match bodyLines with
  | none => maxBodyLines
  | some n => if n.den = 1 ∧ 0 < n.num then n.num.toNat else maxBodyLines

/-- The first lines of the body, escaped, as far as they fit. -/
def bodyPreview (rawBody : JsText) (cap room : ℕ) : JsText :=
  let lines := rawBody.splitOn 10
  let escapedBody := escapeHtml ([10].intercalate (lines.take cap))
  if room - ellipsis.length < escapedBody.length then
    clampHtml escapedBody (room - ellipsis.length) ++ ellipsis
  else escapedBody ++ if cap < lines.length then ellipsis else []

/-- `formatLiveEvent`: the head, and as much of the body as fits. -/
def formatLiveEvent (event : TelegramEventInput) (bodyLines : Option ℚ) : JsText :=
  let head := messageHead event
  let rawBody := (truthy event.body).elim [] sanitizeLiveBody
  if rawBody = [] then head
  else if telegramMessageLimit ≤ head.length + 2 + ellipsis.length then head
  else head ++ utf16 "\n\n" ++
    bodyPreview rawBody (lineCap bodyLines) (telegramMessageLimit - head.length - 2)

/-- The text the bridge posts. -/
def postedText (event : TelegramEventInput) (bodyLines : Option ℚ) : JsText :=
  clampHtml (formatLiveEvent event bodyLines) telegramMessageLimit

end SymphonyBoard
