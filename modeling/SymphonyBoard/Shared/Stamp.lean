import Mathlib.Data.Set.Function
import Mathlib.Tactic.IntervalCases
import SymphonyBoard.Shared.Time
/-!
# Timestamps as they are spelled

A `Stamp` is a timestamp as a provider writes it: a date and a time of day,
a fraction of some width, and an offset. Its text reads as its instant
(`Stamp.dateParse_text`). Between stamps of one offset, text order is the
order of the instants, as long as two of the same second have fractions of
the same width (`Stamp.text_lt_iff`).
-/

namespace SymphonyBoard

/-! ## Dates -/

/-- The days of a month; one past November counts as December. -/
def daysInMonth (y : ℕ) : ℕ → ℕ
  | 1 => 31 | 2 => if isLeapYear y then 29 else 28 | 3 => 31 | 4 => 30 | 5 => 31 | 6 => 30
  | 7 => 31 | 8 => 31 | 9 => 30 | 10 => 31 | 11 => 30 | _ => 31

theorem daysInMonth_le (y m : ℕ) : daysInMonth y m ≤ 31 := by
  unfold daysInMonth
  split <;> first | omega | (split <;> omega)

/-- A day of the calendar. -/
structure ValidDate (y m d : ℕ) : Prop where
  month : 1 ≤ m ∧ m ≤ 12
  day : 1 ≤ d ∧ d ≤ daysInMonth y m

/-- Days of a year before each month. -/
def daysBefore (y m : ℕ) : ℕ := daysBeforeMonth m + if isLeapYear y ∧ 2 < m then 1 else 0

theorem daysFromCivil_eq (y m d : ℕ) :
    daysFromCivil y m d = daysBeforeYear y + daysBefore y m + (d - 1) := by
  unfold daysFromCivil daysBefore
  omega

theorem daysBefore_succ (y : ℕ) {m : ℕ} (h : 1 ≤ m) (h' : m < 12) :
    daysBefore y m + daysInMonth y m = daysBefore y (m + 1) := by
  cases hleap : isLeapYear y <;> interval_cases m <;>
    simp [daysBefore, daysInMonth, daysBeforeMonth, hleap]

theorem daysBefore_mono (y : ℕ) {m m' : ℕ} (h : 1 ≤ m) (hmm : m < m') (h' : m' ≤ 12) :
    daysBefore y m + daysInMonth y m ≤ daysBefore y m' := by
  induction m', hmm using Nat.le_induction with
  | base => exact (daysBefore_succ y h (by omega)).le
  | succ k hk ih =>
    have := daysBefore_succ y (m := k) (by omega) (by omega)
    have := ih (by omega)
    omega

/-- The Gregorian rule, year by year. -/
theorem daysBeforeYear_add_one (y : ℕ) :
    daysBeforeYear (y + 1) + (if y % 100 = 0 then 1 else 0) =
      daysBeforeYear y + 365 + (if y % 4 = 0 then 1 else 0) + if y % 400 = 0 then 1 else 0 := by
  have h4 : (y + 1 + 3) / 4 = (y + 3) / 4 + if y % 4 = 0 then 1 else 0 := by split <;> omega
  have h100 : (y + 1 + 99) / 100 = (y + 99) / 100 + if y % 100 = 0 then 1 else 0 := by
    split <;> omega
  have h400 : (y + 1 + 399) / 400 = (y + 399) / 400 + if y % 400 = 0 then 1 else 0 := by
    split <;> omega
  have hle : (y + 99) / 100 ≤ (y + 3) / 4 := by omega
  have hfour : y % 100 = 0 → y % 4 = 0 := by omega
  unfold daysBeforeYear
  rw [h4, h100, h400]
  generalize (y + 3) / 4 = a at *
  generalize (y + 99) / 100 = b at *
  generalize (y + 399) / 400 = c at *
  by_cases hc : y % 100 = 0
  · rw [if_pos hc, if_pos (hfour hc)]
    omega
  · rw [if_neg hc]
    omega

theorem daysBefore_december (y : ℕ) :
    daysBefore y 12 + daysInMonth y 12 = 365 + if isLeapYear y then 1 else 0 := by
  cases hleap : isLeapYear y <;> simp [daysBefore, daysInMonth, daysBeforeMonth, hleap]

theorem daysBeforeYear_succ (y : ℕ) :
    daysBeforeYear (y + 1) = daysBeforeYear y + daysBefore y 12 + daysInMonth y 12 := by
  have hstep := daysBeforeYear_add_one y
  have hfour : y % 100 = 0 → y % 4 = 0 := by omega
  have hhundred : y % 400 = 0 → y % 100 = 0 := by omega
  have hlast := daysBefore_december y
  have hleap : isLeapYear y = true ↔ y % 4 = 0 ∧ (y % 100 ≠ 0 ∨ y % 400 = 0) := by
    simp [isLeapYear]
  rw [Nat.add_assoc, hlast]
  by_cases hf : y % 4 = 0
  · by_cases hc : y % 100 = 0
    · by_cases hq : y % 400 = 0
      · rw [if_pos hc, if_pos hf, if_pos hq] at hstep
        rw [if_pos (hleap.mpr ⟨hf, Or.inr hq⟩)]
        omega
      · rw [if_pos hc, if_pos hf, if_neg hq] at hstep
        rw [if_neg fun h => (hleap.mp h).2.elim (fun h => h hc) hq]
        omega
    · rw [if_neg hc, if_pos hf, if_neg fun h => hc (hhundred h)] at hstep
      rw [if_pos (hleap.mpr ⟨hf, Or.inl hc⟩)]
      omega
  · rw [if_neg fun h => hf (hfour h), if_neg hf, if_neg fun h => hf (hfour (hhundred h))] at hstep
    rw [if_neg fun h => hf (hleap.mp h).1]
    omega

theorem daysBeforeYear_mono {y y' : ℕ} (h : y ≤ y') : daysBeforeYear y ≤ daysBeforeYear y' := by
  induction h with
  | refl => exact le_refl _
  | step _ ih =>
    rw [daysBeforeYear_succ]
    omega

/-- A day is before the end of its year. -/
theorem daysFromCivil_lt_succ {y m d : ℕ} (h : ValidDate y m d) :
    daysFromCivil y m d < daysBeforeYear (y + 1) := by
  obtain ⟨⟨hm, hm'⟩, hd, hd'⟩ := h
  rw [daysFromCivil_eq, daysBeforeYear_succ]
  rcases Nat.lt_or_ge m 12 with hlt | hge
  · have := daysBefore_mono y hm hlt (le_refl 12)
    omega
  · obtain rfl : m = 12 := by omega
    omega

/-- **Later days have more days before them.** -/
theorem daysFromCivil_lt {y m d y' m' d' : ℕ} (h : ValidDate y m d) (h' : ValidDate y' m' d')
    (hlt : y < y' ∨ y = y' ∧ (m < m' ∨ m = m' ∧ d < d')) :
    daysFromCivil y m d < daysFromCivil y' m' d' := by
  have hend := daysFromCivil_lt_succ h
  obtain ⟨⟨hm, hm'⟩, hd, hd'⟩ := h
  obtain ⟨⟨hn, hn'⟩, he, he'⟩ := h'
  rcases hlt with hy | ⟨rfl, hmlt | ⟨rfl, hdlt⟩⟩
  · have : daysBeforeYear (y + 1) ≤ daysBeforeYear y' := daysBeforeYear_mono hy
    rw [daysFromCivil_eq y' m' d']
    omega
  · have := daysBefore_mono y hm hmlt hn'
    rw [daysFromCivil_eq, daysFromCivil_eq]
    omega
  · rw [daysFromCivil_eq, daysFromCivil_eq]
    omega

/-! ## Stamps -/

/-- The offset a time is written with. -/
inductive Offset
  | utc
  | ahead (hours minutes : ℕ)
  | behind (hours minutes : ℕ)
deriving DecidableEq

namespace Offset

/-- The offset as it is written. -/
def chars : Offset → List Char
  | utc => ['Z']
  | ahead h m => '+' :: (digits 2 h ++ ':' :: digits 2 m)
  | behind h m => '-' :: (digits 2 h ++ ':' :: digits 2 m)

/-- The minutes the offset is ahead of UTC. -/
def minutes : Offset → ℤ
  | utc => 0
  | ahead h m => h * 60 + m
  | behind h m => -(h * 60 + m)

/-- An offset a clock can show. -/
def Valid : Offset → Prop
  | utc => True
  | ahead h m => h < 24 ∧ m < 60
  | behind h m => h < 24 ∧ m < 60

theorem parseOffset_chars {o : Offset} (h : o.Valid) : parseOffset o.chars = some o.minutes := by
  have hread : ∀ h m : ℕ, h < 24 → m < 60 → takeNum 2 0 (digits 2 h ++ ':' :: digits 2 m) =
      some (h, ':' :: digits 2 m) ∧ takeNum 2 0 (digits 2 m) = some (m, []) := by
    intro h m hh hm
    have hm' := takeNum_digits 2 0 m []
    rw [List.append_nil] at hm'
    rw [takeNum_digits, hm']
    constructor <;> (congr 2; omega)
  cases o with
  | utc => rfl
  | ahead hours mins =>
    obtain ⟨hh, hm⟩ := h
    obtain ⟨h1, h2⟩ := hread hours mins hh hm
    have hlt : ¬ (23 < hours ∨ 59 < mins) := by omega
    simp [chars, parseOffset, h1, h2, expect, minutes, hlt]
  | behind hours mins =>
    obtain ⟨hh, hm⟩ := h
    obtain ⟨h1, h2⟩ := hread hours mins hh hm
    have hlt : ¬ (23 < hours ∨ 59 < mins) := by omega
    simp [chars, parseOffset, h1, h2, expect, minutes, hlt]

end Offset

/-- A timestamp as it is spelled. The fraction has a number of digits, as
many as milliseconds have at most, and the number they spell. -/
structure Stamp where
  year : ℕ
  month : ℕ
  day : ℕ
  hour : ℕ
  minute : ℕ
  second : ℕ
  fraction : Option (ℕ × ℕ)
  offset : Offset
  date : year < 10000 ∧ ValidDate year month day
  time : hour < 24 ∧ minute < 60 ∧ second < 60
  fractionDigits : ∀ f ∈ fraction, 1 ≤ f.1 ∧ f.1 ≤ 3 ∧ f.2 < 10 ^ f.1
  offsetValid : offset.Valid

namespace Stamp

/-- A fraction of a second as it is written: the digits and their value. -/
def fractionChars : Option (ℕ × ℕ) → List Char
  | none => []
  | some (n, v) => '.' :: digits n v

/-- The milliseconds a fraction stands for. -/
def fractionMs : Option (ℕ × ℕ) → ℕ
  | none => 0
  | some (n, v) => v * 10 ^ (3 - n)

/-- The time as it is written. -/
def chars (t : Stamp) : List Char :=
  digits 4 t.year ++ '-' :: (digits 2 t.month ++ '-' :: (digits 2 t.day ++ 'T' ::
    (digits 2 t.hour ++ ':' :: (digits 2 t.minute ++ ':' :: (digits 2 t.second ++
      (fractionChars t.fraction ++ t.offset.chars))))))

/-- The time's text. -/
def text (t : Stamp) : String := String.ofList t.chars

/-- The instant the time is. -/
def instant (t : Stamp) : ℤ :=
  instantOf t.year t.month t.day t.hour t.minute t.second (fractionMs t.fraction) t.offset.minutes

/-- An offset starts with no digit and no point. -/
theorem offset_chars (o : Offset) : ∃ c cs, o.chars = c :: cs ∧ c.isDigit = false ∧ c ≠ '.' := by
  cases o with
  | utc => exact ⟨_, _, rfl, by decide, by decide⟩
  | ahead h m => exact ⟨_, _, rfl, by decide, by decide⟩
  | behind h m => exact ⟨_, _, rfl, by decide, by decide⟩

theorem takeFraction_digits {n k : ℕ} (acc v : ℕ) (hn : n ≤ k) {c : Char} (cs : List Char)
    (hc : c.isDigit = false) :
    takeFraction k acc (digits n v ++ c :: cs) =
      ((acc * 10 ^ n + v % 10 ^ n) * 10 ^ (k - n), c :: cs) := by
  induction n generalizing k acc with
  | zero => simp [digits, takeFraction, hc, Nat.mod_one]
  | succ n ih =>
    obtain ⟨k, rfl⟩ : ∃ k', k = k' + 1 := ⟨k - 1, by omega⟩
    rw [digits, List.cons_append, takeFraction, if_pos (isDigit_digitChar (digit_lt n v))]
    rw [ih _ (by omega), digitVal_digitChar (digit_lt n v), Nat.mod_pow_succ, Nat.add_sub_add_right]
    congr 2
    ring

theorem parseFraction_chars (t : Stamp) :
    parseFraction (fractionChars t.fraction ++ t.offset.chars) =
      some (fractionMs t.fraction, t.offset.chars) := by
  obtain ⟨c, cs, hchars, hdigit, hpoint⟩ := offset_chars t.offset
  cases hf : t.fraction with
  | none => cases t.offset <;> rfl
  | some f =>
    obtain ⟨n, v⟩ := f
    obtain ⟨hn, hn', hv⟩ := t.fractionDigits (n, v) hf
    obtain ⟨n, rfl⟩ : ∃ n', n = n' + 1 := ⟨n - 1, by omega⟩
    have hread := takeFraction_digits 0 v hn' cs hdigit
    rw [← hchars, Nat.zero_mul, Nat.zero_add, Nat.mod_eq_of_lt hv] at hread
    simp only [fractionChars, fractionMs, digits, List.cons_append] at hread ⊢
    rw [parseFraction, if_pos (isDigit_digitChar (digit_lt n v)), hread]

/-- One step of a reader that goes on. -/
theorem bind_some_of {α β : Type} {o : Option α} {a : α} {f : α → Option β} {b : β}
    (ho : o = some a) (hf : f a = some b) : (o >>= f) = some b := by
  rw [ho]
  exact hf

/-- What stands before the fraction. -/
def headChars (t : Stamp) (rest : List Char) : List Char :=
  digits 4 t.year ++ '-' :: (digits 2 t.month ++ '-' :: (digits 2 t.day ++ 'T' ::
    (digits 2 t.hour ++ ':' :: (digits 2 t.minute ++ ':' :: (digits 2 t.second ++ rest)))))

/-- Whatever the fraction, a text reads as the instant of its fields. -/
theorem parseIso_headChars (t : Stamp) {rest : List Char} {ms : ℕ}
    (hrest : parseFraction rest = some (ms, t.offset.chars)) :
    parseIso (t.headChars rest) =
      some (instantOf t.year t.month t.day t.hour t.minute t.second ms t.offset.minutes) := by
  obtain ⟨hy, ⟨hmo, hmo'⟩, hd, hd'⟩ := t.date
  obtain ⟨hh, hmi, hs⟩ := t.time
  have hday := daysInMonth_le t.year t.month
  have hnum : ∀ n v r, v < 10 ^ n → takeNum n 0 (digits n v ++ r) = some (v, r) := by
    intro n v r hv
    rw [takeNum_digits, Nat.mod_eq_of_lt hv, Nat.zero_mul, Nat.zero_add]
  have hrange : ¬ (t.month < 1 ∨ 12 < t.month ∨ t.day < 1 ∨ 31 < t.day ∨ 23 < t.hour ∨
      59 < t.minute ∨ 59 < t.second) := by omega
  have htwo : ∀ v r, v < 60 → takeNum 2 0 (digits 2 v ++ r) = some (v, r) := fun v r hv =>
    hnum 2 v r (by omega)
  have hsep : ∀ c r, expect c (c :: r) = some r := fun c r => if_pos rfl
  rw [headChars]
  refine bind_some_of (hnum 4 _ _ hy) (bind_some_of (hsep _ _) (bind_some_of (htwo _ _ (by omega))
    (bind_some_of (hsep _ _) (bind_some_of (htwo _ _ (by omega)) (bind_some_of (hsep _ _)
      (bind_some_of (htwo _ _ (by omega)) (bind_some_of (hsep _ _) (bind_some_of (htwo _ _ hmi)
        (bind_some_of (hsep _ _) (bind_some_of (htwo _ _ hs) (bind_some_of hrest
          (bind_some_of (Offset.parseOffset_chars t.offsetValid) ?_))))))))))))
  exact if_neg hrange

/-- **A stamp's text reads as its instant.** -/
theorem dateParse_text (t : Stamp) : dateParse t.text = some t.instant := by
  rw [dateParse, text, String.toList_ofList]
  exact parseIso_headChars t (parseFraction_chars t)

/-! ### The order of stamps -/

/-- The same wall-clock second. -/
def SameSecond (a b : Stamp) : Prop :=
  a.year = b.year ∧ a.month = b.month ∧ a.day = b.day ∧ a.hour = b.hour ∧ a.minute = b.minute ∧
    a.second = b.second

instance (a b : Stamp) : Decidable (SameSecond a b) :=
  inferInstanceAs (Decidable (_ ∧ _ ∧ _ ∧ _ ∧ _ ∧ _))

/-- An earlier wall-clock second. -/
def EarlierSecond (a b : Stamp) : Prop :=
  a.year < b.year ∨ a.year = b.year ∧ (a.month < b.month ∨ a.month = b.month ∧
    (a.day < b.day ∨ a.day = b.day ∧ (a.hour < b.hour ∨ a.hour = b.hour ∧
      (a.minute < b.minute ∨ a.minute = b.minute ∧ a.second < b.second))))

theorem second_trichotomy (a b : Stamp) :
    EarlierSecond a b ∨ SameSecond a b ∨ EarlierSecond b a := by
  unfold EarlierSecond SameSecond
  omega

/-- Seconds on the wall clock since 1 January of year 0. -/
def wall (t : Stamp) : ℕ :=
  daysFromCivil t.year t.month t.day * 86400 + t.hour * 3600 + t.minute * 60 + t.second

theorem EarlierSecond.wall_lt {a b : Stamp} (h : EarlierSecond a b) : a.wall < b.wall := by
  obtain ⟨hh, hm, hs⟩ := a.time
  have hdays : ∀ hlt, daysFromCivil a.year a.month a.day < daysFromCivil b.year b.month b.day :=
    daysFromCivil_lt a.date.2 b.date.2
  unfold wall
  rcases h with hy | ⟨hy, hmo | ⟨hmo, hd | ⟨hd, hlt⟩⟩⟩
  · have := hdays (Or.inl hy)
    omega
  · have := hdays (Or.inr ⟨hy, Or.inl hmo⟩)
    omega
  · have := hdays (Or.inr ⟨hy, Or.inr ⟨hmo, hd⟩⟩)
    omega
  · rw [hy, hmo, hd]
    obtain ⟨hh', hm', hs'⟩ := b.time
    omega

theorem SameSecond.wall_eq {a b : Stamp} (h : SameSecond a b) : a.wall = b.wall := by
  obtain ⟨hy, hmo, hd, hh, hm, hs⟩ := h
  unfold wall
  rw [hy, hmo, hd, hh, hm, hs]

theorem fractionMs_lt (t : Stamp) : fractionMs t.fraction < 1000 := by
  cases hf : t.fraction with
  | none => decide
  | some f =>
    obtain ⟨n, v⟩ := f
    obtain ⟨hn, hn', hv⟩ := t.fractionDigits (n, v) hf
    simp only [fractionMs] at hv ⊢
    interval_cases n <;> omega

theorem instant_eq (t : Stamp) :
    t.instant = ((t.wall : ℤ) - epochDay * 86400 - t.offset.minutes * 60) * 1000 +
      fractionMs t.fraction := by
  unfold instant instantOf wall
  push_cast
  ring

theorem chars_lt_iff {a b : Stamp} : a.chars < b.chars ↔
    EarlierSecond a b ∨ SameSecond a b ∧
      fractionChars a.fraction ++ a.offset.chars < fractionChars b.fraction ++ b.offset.chars := by
  have hmod : ∀ t : Stamp, t.year % 10 ^ 4 = t.year ∧ t.month % 10 ^ 2 = t.month ∧
      t.day % 10 ^ 2 = t.day ∧ t.hour % 10 ^ 2 = t.hour ∧ t.minute % 10 ^ 2 = t.minute ∧
      t.second % 10 ^ 2 = t.second := by
    intro t
    obtain ⟨hy, ⟨hmo, hmo'⟩, hd, hd'⟩ := t.date
    obtain ⟨hh, hmi, hs⟩ := t.time
    have hday := daysInMonth_le t.year t.month
    omega
  obtain ⟨ay, amo, ad, ah, ami, as⟩ := hmod a
  obtain ⟨bY, bmo, bd, bh, bmi, bs⟩ := hmod b
  simp only [chars, digits_append_lt_iff, List.cons_lt_cons_iff, true_and, Char.lt_irrefl, false_or,
    ay, amo, ad, ah, ami, as, bY, bmo, bd, bh, bmi, bs, EarlierSecond, SameSecond,
    and_or_left, or_assoc, and_assoc]

theorem text_lt_iff_chars {a b : Stamp} : a.text < b.text ↔ a.chars < b.chars := by
  show (String.ofList a.chars).toList < (String.ofList b.chars).toList ↔ _
  rw [String.toList_ofList, String.toList_ofList]

/-- Behind one another in the same second: fractions of one width are in
the order of their numbers. -/
theorem fraction_lt_iff {a b : Stamp} (hwidth : a.fraction.map Prod.fst = b.fraction.map Prod.fst)
    (r : List Char) : fractionChars a.fraction ++ r < fractionChars b.fraction ++ r ↔
      fractionMs a.fraction < fractionMs b.fraction := by
  cases ha : a.fraction with
  | none =>
    rw [ha, Option.map_none] at hwidth
    rw [Option.map_eq_none_iff.mp hwidth.symm]
    exact iff_of_false (List.lt_irrefl _) (lt_irrefl _)
  | some f =>
    cases hb : b.fraction with
    | none =>
      rw [ha, hb] at hwidth
      cases hwidth
    | some g =>
      obtain ⟨n, v⟩ := f
      obtain ⟨m, w⟩ := g
      rw [ha, hb] at hwidth
      obtain rfl : n = m := Option.some.inj hwidth
      have hv := (a.fractionDigits _ ha).2.2
      have hw := (b.fractionDigits _ hb).2.2
      simp only at hv hw
      simp only [fractionChars, fractionMs, List.cons_append, List.cons_lt_cons_iff,
        Char.lt_irrefl, false_or, true_and, digits_append_lt_iff, Nat.mod_eq_of_lt hv, Nat.mod_eq_of_lt hw,
        List.lt_irrefl, and_false, or_false]
      exact (Nat.mul_lt_mul_right (Nat.pow_pos (by decide))).symm

/-- **Text order is the order of the instants**, for stamps of one offset
whose fractions have the same width if the second is the same. -/
theorem text_lt_iff {a b : Stamp} (hoffset : a.offset = b.offset)
    (hwidth : SameSecond a b → a.fraction.map Prod.fst = b.fraction.map Prod.fst) :
    a.text < b.text ↔ a.instant < b.instant := by
  have ha := fractionMs_lt a
  have hb := fractionMs_lt b
  rw [text_lt_iff_chars, chars_lt_iff, instant_eq, instant_eq, hoffset]
  rcases second_trichotomy a b with hlt | hsame | hgt
  · have := hlt.wall_lt
    constructor
    · intro _
      omega
    · exact fun _ => Or.inl hlt
  · have hwall := hsame.wall_eq
    have hno : ¬ EarlierSecond a b := fun h => by
      have := h.wall_lt
      omega
    rw [fraction_lt_iff (hwidth hsame)]
    constructor
    · rintro (h | ⟨-, h⟩)
      · exact absurd h hno
      · omega
    · exact fun h => Or.inr ⟨hsame, by omega⟩
  · have := hgt.wall_lt
    constructor
    · rintro (hlt | ⟨hsame, -⟩)
      · have := hlt.wall_lt
        omega
      · have := hsame.wall_eq
        omega
    · intro h
      omega

end Stamp

/-! ## Texts of one spelling -/

/-- Timestamps of one spelling: stamps of one offset, of which two of the
same second have fractions of one width. -/
def OneSpelling (T : Set String) : Prop :=
  ∃ (stamp : String → Stamp) (o : Offset), (∀ t ∈ T, (stamp t).text = t ∧ (stamp t).offset = o) ∧
    ∀ t ∈ T, ∀ u ∈ T, (stamp t).SameSecond (stamp u) →
      (stamp t).fraction.map Prod.fst = (stamp u).fraction.map Prod.fst

/-- The texts of stamps are of one spelling, as the stamps are. -/
theorem oneSpelling_of_stamps {l : List Stamp} {o : Offset} (hoffset : ∀ a ∈ l, a.offset = o)
    (hwidth : ∀ a ∈ l, ∀ b ∈ l, a.SameSecond b →
      a.fraction.map Prod.fst = b.fraction.map Prod.fst) :
    OneSpelling {t | ∃ a ∈ l, a.text = t} := by
  have : Nonempty Stamp :=
    ⟨{ year := 1970, month := 1, day := 1, hour := 0, minute := 0, second := 0, fraction := none,
       offset := .utc, date := ⟨by decide, by decide, by decide⟩, time := by decide,
       fractionDigits := nofun, offsetValid := trivial }⟩
  refine ⟨Function.invFunOn Stamp.text {a | a ∈ l}, o, fun t ht => ?_, fun t ht u hu => ?_⟩
  · exact ⟨Function.invFunOn_eq ht, hoffset _ (Function.invFunOn_mem ht)⟩
  · exact hwidth _ (Function.invFunOn_mem ht) _ (Function.invFunOn_mem hu)

namespace OneSpelling

variable {T : Set String} {t u : String}

theorem parses (h : OneSpelling T) (ht : t ∈ T) : ∃ x, dateParse t = some x := by
  obtain ⟨stamp, o, hstamp, -⟩ := h
  refine ⟨(stamp t).instant, ?_⟩
  rw [← Stamp.dateParse_text, (hstamp t ht).1]

theorem ne_empty (h : OneSpelling T) (ht : t ∈ T) : t ≠ "" := by
  rintro rfl
  obtain ⟨x, hx⟩ := h.parses ht
  cases hx

/-- **In one spelling text order is the order of the instants.** -/
theorem lt_iff_before (h : OneSpelling T) (ht : t ∈ T) (hu : u ∈ T) : t < u ↔ Before t u := by
  obtain ⟨stamp, o, hstamp, hwidth⟩ := h
  obtain ⟨htext, hoff⟩ := hstamp t ht
  obtain ⟨hutext, huoff⟩ := hstamp u hu
  have hparse := (stamp t).dateParse_text
  have huparse := (stamp u).dateParse_text
  have hlt := Stamp.text_lt_iff (hoff.trans huoff.symm) (hwidth t ht u hu)
  rw [htext] at hparse hlt
  rw [hutext] at huparse hlt
  rw [hlt]
  constructor
  · exact fun h => ⟨_, _, hparse, huparse, h⟩
  · rintro ⟨x, y, hx, hy, hxy⟩
    obtain rfl := Option.some.inj (hparse.symm.trans hx)
    obtain rfl := Option.some.inj (huparse.symm.trans hy)
    exact hxy

theorem notBefore_iff (h : OneSpelling T) (ht : t ∈ T) (hu : u ∈ T) : NotBefore t u ↔ ¬ t < u := by
  rw [h.lt_iff_before ht hu]
  obtain ⟨x, hx⟩ := h.parses ht
  obtain ⟨y, hy⟩ := h.parses hu
  constructor
  · rintro ⟨x', y', hx', hy', hle⟩ ⟨x'', y'', hx'', hy'', hlt⟩
    obtain rfl := Option.some.inj (hx'.symm.trans hx'')
    obtain rfl := Option.some.inj (hy'.symm.trans hy'')
    omega
  · intro hno
    exact ⟨x, y, hx, hy, not_lt.mp fun hlt => hno ⟨x, y, hx, hy, hlt⟩⟩

theorem mono {T' : Set String} (h : OneSpelling T) (hsub : ∀ t ∈ T', t ∈ T) : OneSpelling T' := by
  obtain ⟨stamp, o, hstamp, hwidth⟩ := h
  exact ⟨stamp, o, fun t ht => hstamp t (hsub t ht),
    fun t ht u hu => hwidth t (hsub t ht) u (hsub u hu)⟩

end OneSpelling

end SymphonyBoard
