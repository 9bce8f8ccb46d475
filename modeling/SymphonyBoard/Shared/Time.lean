import SymphonyBoard.Common.Digits
import SymphonyBoard.Shared.Calendar
/-!
# Instants and their spellings

`Date.parse` and `Date.prototype.toISOString` on the ISO-8601 date-times
that reach the board, and the timestamp helpers of `shared/time.ts`. An
instant is a number of milliseconds since the epoch. The engine's fallback
spellings (no offset, a date alone, other layouts) read as `NaN` here.

`dateParse` reads four-digit years, which are all that SQLite's `julianday`
knows; `dateParseAll` reads expanded years too.
-/

namespace SymphonyBoard

/-- Days from 1 January of year 0 to 1 January of a year, in the proleptic
Gregorian calendar. -/
def daysBeforeYear (y : ℕ) : ℕ := 365 * y + (y + 3) / 4 - (y + 99) / 100 + (y + 399) / 400

/-- Whether a year is a leap year. -/
def isLeapYear (y : ℕ) : Bool := y % 4 = 0 ∧ (y % 100 ≠ 0 ∨ y % 400 = 0)

/-- Days of a common year before each month. -/
def daysBeforeMonth : ℕ → ℕ
  | 1 => 0 | 2 => 31 | 3 => 59 | 4 => 90 | 5 => 120 | 6 => 151
  | 7 => 181 | 8 => 212 | 9 => 243 | 10 => 273 | 11 => 304 | _ => 334

/-- Days from 1 January of year 0 to a date. -/
def daysFromCivil (y m d : ℕ) : ℕ :=
  daysBeforeYear y + daysBeforeMonth m + (if isLeapYear y ∧ 2 < m then 1 else 0) + (d - 1)

/-- 1 January 1970. -/
def epochDay : ℕ := 719528

/-- The instant of a wall-clock reading with a UTC offset in minutes. -/
def instantOf (y mo d h mi s ms : ℕ) (offsetMinutes : ℤ) : ℤ :=
  (((daysFromCivil y mo d : ℤ) - epochDay) * 86400 + h * 3600 + mi * 60 + s
    - offsetMinutes * 60) * 1000 + ms

/-- Take one expected character off a text. -/
def expect (c : Char) : List Char → Option (List Char)
  | c' :: cs => if c' = c then some cs else none
  | [] => none

/-- Digits after the decimal point, read to milliseconds: further digits
are dropped. The count says how many millisecond digits are still open. -/
def takeFraction : ℕ → ℕ → List Char → ℕ × List Char
  | n, acc, c :: cs =>
    if c.isDigit then
      match n with
      | 0 => takeFraction 0 acc cs
      | n + 1 => takeFraction n (acc * 10 + digitVal c) cs
    else (acc * 10 ^ n, c :: cs)
  | n, acc, [] => (acc * 10 ^ n, [])

/-- The optional fraction of a second, in milliseconds. -/
def parseFraction : List Char → Option (ℕ × List Char)
  | '.' :: c :: cs => if c.isDigit then some (takeFraction 3 0 (c :: cs)) else none
  | cs => some (0, cs)

/-- `Z` or `±HH:mm`, in minutes. -/
def parseOffset : List Char → Option ℤ
  | ['Z'] => some 0
  | sign :: cs => do
    let (h, cs) ← takeNum 2 0 cs
    let cs ← expect ':' cs
    let (m, cs) ← takeNum 2 0 cs
    if cs ≠ [] ∨ 23 < h ∨ 59 < m then none
    else if sign = '+' then some (h * 60 + m)
    else if sign = '-' then some (-(h * 60 + m))
    else none
  | [] => none

/-- `YYYY-MM-DDTHH:mm:ss[.fff](Z|±HH:mm)`. -/
def parseIso (cs : List Char) : Option ℤ := do
  let (y, cs) ← takeNum 4 0 cs
  let cs ← expect '-' cs
  let (mo, cs) ← takeNum 2 0 cs
  let cs ← expect '-' cs
  let (d, cs) ← takeNum 2 0 cs
  let cs ← expect 'T' cs
  let (h, cs) ← takeNum 2 0 cs
  let cs ← expect ':' cs
  let (mi, cs) ← takeNum 2 0 cs
  let cs ← expect ':' cs
  let (s, cs) ← takeNum 2 0 cs
  let (ms, cs) ← parseFraction cs
  let offset ← parseOffset cs
  if mo < 1 ∨ 12 < mo ∨ d < 1 ∨ 31 < d ∨ 23 < h ∨ 59 < mi ∨ 59 < s then none
  else some (instantOf y mo d h mi s ms offset)

/-- `Date.parse` of a four-digit year; `none` is `NaN`. -/
def dateParse (text : String) : Option ℤ := parseIso text.toList

/-- A sign and six digits; there is no year minus zero. -/
def expandedYear : List Char → Option (ℤ × List Char)
  | '+' :: cs => do
    let (y, cs) ← takeNum 6 0 cs
    return ((y : ℤ), cs)
  | '-' :: cs => do
    let (y, cs) ← takeNum 6 0 cs
    if y = 0 then none else return (-(y : ℤ), cs)
  | _ => none

/-- The furthest instant a `Date` holds. -/
def maxTimeMs : ℤ := 8640000000000000

/-- `±YYYYYY-MM-DDTHH:mm:ss[.fff](Z|±HH:mm)`. -/
def parseExpanded (cs : List Char) : Option ℤ := do
  let (y, cs) ← expandedYear cs
  let cs ← expect '-' cs
  let (mo, cs) ← takeNum 2 0 cs
  let cs ← expect '-' cs
  let (d, cs) ← takeNum 2 0 cs
  let cs ← expect 'T' cs
  let (h, cs) ← takeNum 2 0 cs
  let cs ← expect ':' cs
  let (mi, cs) ← takeNum 2 0 cs
  let cs ← expect ':' cs
  let (s, cs) ← takeNum 2 0 cs
  let (ms, cs) ← parseFraction cs
  let offset ← parseOffset cs
  let instant := daysFromDate y mo d * dayMs + (h * 3600 + mi * 60 + s - offset * 60) * 1000 + ms
  if mo < 1 ∨ 12 < mo ∨ d < 1 ∨ 31 < d ∨ 23 < h ∨ 59 < mi ∨ 59 < s then none
  else if instant < -maxTimeMs ∨ maxTimeMs < instant then none
  else some instant

/-- `Date.parse`, expanded years included. -/
def dateParseAll (text : String) : Option ℤ := (dateParse text).or (parseExpanded text.toList)

example : dateParseAll "+010000-01-02T23:59:59.999Z" = some 253402473599999 := by decide +kernel

theorem dateParseAll_of_dateParse {text : String} {x : ℤ} (h : dateParse text = some x) :
    dateParseAll text = some x := by
  rw [dateParseAll, h]
  rfl

/-- The date a number of days after 1 January of year 0. -/
def civilFromDays (days : ℕ) : ℕ × ℕ × ℕ :=
  -- counted from 1 March of year -400, so leap days close years and eras
  let z := days + 146037
  let era := z / 146097
  let doe := z % 146097
  let yoe := (doe - doe / 1460 + doe / 36524 - doe / 146096) / 365
  let doy := doe - (365 * yoe + yoe / 4 - yoe / 100)
  let mp := (5 * doy + 2) / 153
  let d := doy - (153 * mp + 2) / 5 + 1
  let m := if mp < 10 then mp + 3 else mp - 9
  (yoe + era * 400 + (if m ≤ 2 then 1 else 0) - 400, m, d)

/-- `new Date(ms).toISOString()`, for instants of years 0 to 9999. -/
def toISOString (ms : ℤ) : String :=
  let day := (ms / 86400000 + epochDay).toNat
  let rest := (ms % 86400000).toNat
  let (y, m, d) := civilFromDays day
  String.ofList (digits 4 y ++ '-' :: digits 2 m ++ '-' :: digits 2 d ++
    'T' :: digits 2 (rest / 3600000) ++ ':' :: digits 2 (rest / 60000 % 60) ++
    ':' :: digits 2 (rest / 1000 % 60) ++ '.' :: digits 3 (rest % 1000) ++ ['Z'])

example : toISOString 1780272000500 = "2026-06-01T00:00:00.500Z" := by decide

/-- `timestampMs`: an absent timestamp is not one. -/
def timestampMs (value : Option String) : Option ℤ := value.bind dateParseAll

/-- Both are timestamps, and the first is not before the second. -/
def NotBefore (a b : String) : Prop :=
  ∃ x y, dateParse a = some x ∧ dateParse b = some y ∧ y ≤ x

instance (a b : String) : Decidable (NotBefore a b) :=
  decidable_of_iff (∃ x ∈ dateParse a, ∃ y ∈ dateParse b, y ≤ x) <| by
    simp only [NotBefore, Option.mem_def]
    exact ⟨fun ⟨x, hx, y, hy, h⟩ => ⟨x, y, hx, hy, h⟩, fun ⟨x, y, hx, hy, h⟩ => ⟨x, hx, y, hy, h⟩⟩

/-- Both are timestamps, and the first is before the second. -/
def Before (a b : String) : Prop :=
  ∃ x y, dateParse a = some x ∧ dateParse b = some y ∧ x < y

theorem NotBefore.trans {a b c : String} (h : NotBefore a b) (h' : NotBefore b c) :
    NotBefore a c := by
  obtain ⟨x, y, hx, hy, hle⟩ := h
  obtain ⟨y', z, hy', hz, hle'⟩ := h'
  obtain rfl := Option.some.inj (hy.symm.trans hy')
  exact ⟨x, z, hx, hz, le_trans hle' hle⟩

/-- A range of instants as the range API passes it, both ends included. -/
structure TimeRange where
  fromIso : String
  toIso : String
deriving DecidableEq

/-- `timestampInRange`: all three texts have an instant, and the value's is between the bounds'. -/
def timestampInRange (value : Option String) (range : TimeRange) : Bool :=
  match timestampMs value, timestampMs (some range.fromIso), timestampMs (some range.toIso) with
  | some v, some f, some t => decide (f ≤ v) && decide (v ≤ t)
  | _, _, _ => false

/-- Newest first; a timestamp that does not parse comes last. -/
def compareTimestampDesc (a b : Option String) : Ordering :=
  match timestampMs a, timestampMs b with
  | some x, some y => compare y x
  | some _, none => .lt
  | none, some _ => .gt
  | none, none => .eq

end SymphonyBoard
