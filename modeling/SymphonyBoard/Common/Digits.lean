import Mathlib.Data.Nat.Basic
import Mathlib.Data.List.Basic
import Mathlib.Tactic.Ring
/-!
# Fixed-width decimal numerals

A number written with a fixed count of decimal digits, as characters, and
the reader that takes that many digits off a text. Reading undoes writing
(`takeNum_digits`), and of two texts that start with numerals of one width
the one with the smaller number comes first (`digits_append_lt_iff`): text
order is number order as long as the widths agree.
-/

namespace SymphonyBoard

/-- The character of a decimal digit. -/
def digitChar (d : ℕ) : Char := Char.ofNat (48 + d)

/-- The value of a decimal digit character. -/
def digitVal (c : Char) : ℕ := c.toNat - 48

/-- The last `n` decimal digits of `v`, most significant first. -/
def digits : ℕ → ℕ → List Char
  | 0, _ => []
  | n + 1, v => digitChar (v / 10 ^ n % 10) :: digits n v

/-- Read exactly `n` digits, continuing the number `acc`. -/
def takeNum : ℕ → ℕ → List Char → Option (ℕ × List Char)
  | 0, acc, cs => some (acc, cs)
  | n + 1, acc, c :: cs => if c.isDigit then takeNum n (acc * 10 + digitVal c) cs else none
  | _ + 1, _, [] => none

/-- The three ranges of letters and digits. -/
theorem toNat_of_isAlphanum {c : Char} (h : c.isAlphanum = true) :
    (48 ≤ c.toNat ∧ c.toNat ≤ 57) ∨ (65 ≤ c.toNat ∧ c.toNat ≤ 90) ∨
      (97 ≤ c.toNat ∧ c.toNat ≤ 122) := by
  delta Char.isAlphanum Char.isAlpha Char.isUpper Char.isLower Char.isDigit at h
  simp only [Bool.or_eq_true, Bool.and_eq_true, decide_eq_true_eq, ge_iff_le,
    UInt32.le_iff_toNat_le] at h
  have hval : c.val.toNat = c.toNat := rfl
  have hA : 'A'.val.toNat = 65 := rfl
  have hZ : 'Z'.val.toNat = 90 := rfl
  have ha : 'a'.val.toNat = 97 := rfl
  have hz : 'z'.val.toNat = 122 := rfl
  have h0 : '0'.val.toNat = 48 := rfl
  have h9 : '9'.val.toNat = 57 := rfl
  omega

theorem toNat_of_isDigit {c : Char} (h : c.isDigit = true) : 48 ≤ c.toNat ∧ c.toNat ≤ 57 := by
  simp only [Char.isDigit, Bool.and_eq_true, decide_eq_true_eq, ge_iff_le, UInt32.le_iff_toNat_le] at h
  exact h

theorem isDigit_digitChar {d : ℕ} (h : d < 10) : (digitChar d).isDigit = true := by
  have aux : ∀ d : Fin 10, (digitChar d).isDigit = true := by decide
  exact aux ⟨d, h⟩

theorem digitVal_digitChar {d : ℕ} (h : d < 10) : digitVal (digitChar d) = d := by
  have aux : ∀ d : Fin 10, digitVal (digitChar d) = d := by decide
  exact aux ⟨d, h⟩

theorem digitChar_lt_iff {d e : ℕ} (hd : d < 10) (he : e < 10) :
    digitChar d < digitChar e ↔ d < e := by
  have aux : ∀ d e : Fin 10, digitChar d < digitChar e ↔ d < e := by decide
  exact aux ⟨d, hd⟩ ⟨e, he⟩

theorem digitChar_inj {d e : ℕ} (hd : d < 10) (he : e < 10) :
    digitChar d = digitChar e ↔ d = e :=
  ⟨fun h => by rw [← digitVal_digitChar hd, h, digitVal_digitChar he], fun h => h ▸ rfl⟩

theorem digit_lt (n v : ℕ) : v / 10 ^ n % 10 < 10 := Nat.mod_lt _ (by omega)

/-- Reading a numeral gives back its number, with what follows it. -/
theorem takeNum_digits (n acc v : ℕ) (r : List Char) :
    takeNum n acc (digits n v ++ r) = some (acc * 10 ^ n + v % 10 ^ n, r) := by
  induction n generalizing acc with
  | zero => simp [takeNum, digits, Nat.mod_one]
  | succ n ih =>
    rw [digits, List.cons_append, takeNum, if_pos (isDigit_digitChar (digit_lt n v)), ih,
      digitVal_digitChar (digit_lt n v), Nat.mod_pow_succ]
    congr 2
    ring

/-- **Text order is number order at one width.** -/
theorem digits_append_lt_iff (n v w : ℕ) (r r' : List Char) :
    digits n v ++ r < digits n w ++ r' ↔
      v % 10 ^ n < w % 10 ^ n ∨ v % 10 ^ n = w % 10 ^ n ∧ r < r' := by
  induction n with
  | zero => simp [digits, Nat.mod_one]
  | succ n ih =>
    have hv := Nat.mod_lt v (Nat.pos_of_ne_zero (pow_ne_zero n (by omega : (10 : ℕ) ≠ 0)))
    have hw := Nat.mod_lt w (Nat.pos_of_ne_zero (pow_ne_zero n (by omega : (10 : ℕ) ≠ 0)))
    have hd := digit_lt n v
    have he := digit_lt n w
    rw [digits, digits, List.cons_append, List.cons_append, List.cons_lt_cons_iff, ih,
      digitChar_lt_iff hd he, digitChar_inj hd he, Nat.mod_pow_succ, Nat.mod_pow_succ]
    -- the leading digits decide unless they are equal
    rcases Nat.lt_trichotomy (v / 10 ^ n % 10) (w / 10 ^ n % 10) with h | h | h
    · have hmul : 10 ^ n * (v / 10 ^ n % 10) + 10 ^ n ≤ 10 ^ n * (w / 10 ^ n % 10) := by
        rw [← Nat.mul_succ]
        exact Nat.mul_le_mul_left _ h
      constructor
      · intro _
        left
        omega
      · intro _
        left
        exact h
    · rw [h]
      constructor
      · rintro (hlt | ⟨-, hlt | ⟨heq, hr⟩⟩)
        · exact absurd hlt (lt_irrefl _)
        · left
          omega
        · right
          exact ⟨by omega, hr⟩
      · rintro (hlt | ⟨heq, hr⟩)
        · right
          exact ⟨rfl, Or.inl (by omega)⟩
        · right
          exact ⟨rfl, Or.inr ⟨by omega, hr⟩⟩
    · have hmul : 10 ^ n * (w / 10 ^ n % 10) + 10 ^ n ≤ 10 ^ n * (v / 10 ^ n % 10) := by
        rw [← Nat.mul_succ]
        exact Nat.mul_le_mul_left _ h
      constructor
      · rintro (hlt | ⟨heq, -⟩) <;> omega
      · rintro (hlt | ⟨heq, -⟩) <;> omega

/-- Digits leave a number among those of their length. -/
theorem ofDigitChars_bounds {cs : List Char} (hcs : ∀ c ∈ cs, c.isDigit = true) (n : ℕ) :
    10 ^ cs.length * n ≤ Nat.ofDigitChars 10 cs n ∧
      Nat.ofDigitChars 10 cs n < 10 ^ cs.length * (n + 1) := by
  induction cs generalizing n with
  | nil => simp
  | cons c cs ih =>
    obtain ⟨hc, hcs⟩ := List.forall_mem_cons.mp hcs
    obtain ⟨hlow, hhigh⟩ := ih hcs (10 * n + (c.toNat - '0'.toNat))
    have hdigit := toNat_of_isDigit hc
    have hzero : '0'.toNat = 48 := rfl
    rw [Nat.ofDigitChars_cons, List.length_cons, Nat.pow_succ, Nat.mul_assoc, Nat.mul_assoc]
    constructor
    · exact Nat.le_trans (Nat.mul_le_mul_left _ (by omega)) hlow
    · exact Nat.lt_of_lt_of_le hhigh (Nat.mul_le_mul_left _ (by omega))

end SymphonyBoard
