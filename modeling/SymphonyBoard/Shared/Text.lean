import Mathlib.Data.List.DropRight
import Mathlib.Logic.Basic
/-!
# Texts as JavaScript reads them

The string helpers the normalizers share. An absent value and an empty
text are both falsy in the source, which tests most provider fields that
way; `nonEmpty` is that test.
-/

namespace SymphonyBoard

/-- A text the source takes for true: present and not empty. -/
def nonEmpty (s : Option String) : Option String := s.filter (· ≠ "")

/-- The line terminators. -/
def isLineTerminator (c : Char) : Bool :=
  c = '\n' ∨ c = '\r' ∨ c = '\u2028' ∨ c = '\u2029'

/-- What `String.prototype.trim` cuts off. -/
def isTrimmed (c : Char) : Bool :=
  isLineTerminator c || c = '\t' || c = '\u000b' || c = '\u000c' || c = ' ' || c = '\u00a0' ||
    c = '\ufeff' || c = '\u1680' || (0x2000 ≤ c.toNat && c.toNat ≤ 0x200a) || c = '\u202f' ||
    c = '\u205f' || c = '\u3000'

/-- The characters without the spaces around them. -/
def trimChars (cs : List Char) : List Char :=
  ((cs.dropWhile isTrimmed).reverse.dropWhile isTrimmed).reverse

/-- `trim` -/
def trim (s : String) : String := String.ofList (trimChars s.toList)

/-- `cleanText`: a trimmed text, if anything is left of it. -/
def cleanText (value : Option String) : Option String :=
  value.bind fun s => nonEmpty (some (String.ofList (trimChars s.toList)))

/-- A hexadecimal digit. -/
def isHexDigit (c : Char) : Bool :=
  c.isDigit || ('a' ≤ c && c ≤ 'f') || ('A' ≤ c && c ≤ 'F')

/-- `s.startsWith(prefix)`, giving what follows. -/
def stripPrefix? : List Char → List Char → Option (List Char)
  | [], cs => some cs
  | p :: ps, c :: cs => if p = c then stripPrefix? ps cs else none
  | _ :: _, [] => none

/-- What is left of a trimmed text starts and ends with characters that
stay. -/
theorem trimChars_trimChars (cs : List Char) : trimChars (trimChars cs) = trimChars cs := by
  have hstart : (trimChars cs).dropWhile isTrimmed = trimChars cs := by
    rw [List.dropWhile_eq_self_iff]
    intro hpos
    have hkept : trimChars cs <+: cs.dropWhile isTrimmed :=
      List.rdropWhile_prefix isTrimmed (cs.dropWhile isTrimmed)
    rw [hkept.getElem hpos]
    exact List.dropWhile_get_zero_not isTrimmed cs (hpos.trans_le hkept.length_le)
  have hend : ((trimChars cs).reverse.dropWhile isTrimmed).reverse = trimChars cs :=
    List.rdropWhile_idempotent isTrimmed (cs.dropWhile isTrimmed)
  rw [trimChars, hstart, hend]

theorem trim_trim (s : String) : trim (trim s) = trim s := by
  rw [trim, trim, String.toList_ofList, trimChars_trimChars]

theorem trimChars_head {cs : List Char} {c : Char} (h : (trimChars cs).head? = some c) :
    isTrimmed c = false := by
  have hsub : trimChars cs <+: cs.dropWhile isTrimmed := by
    have hsuf := List.dropWhile_suffix (l := (cs.dropWhile isTrimmed).reverse) isTrimmed
    have hpre := List.reverse_prefix.mpr hsuf
    rw [List.reverse_reverse] at hpre
    exact hpre
  obtain ⟨rest, hrest⟩ := hsub
  cases hd : cs.dropWhile isTrimmed with
  | nil =>
    rw [hd, List.append_eq_nil_iff] at hrest
    rw [hrest.1] at h
    cases h
  | cons a l =>
    have hne : cs.dropWhile isTrimmed ≠ [] := by
      rw [hd]
      exact List.cons_ne_nil a l
    have hhead := List.head_dropWhile_not isTrimmed hne
    cases ht : trimChars cs with
    | nil =>
      rw [ht] at h
      cases h
    | cons b m =>
      rw [ht, hd, List.cons_append] at hrest
      rw [ht, List.head?_cons, Option.some.injEq] at h
      obtain ⟨hba, -⟩ := List.cons.inj hrest
      simp only [hd, List.head_cons] at hhead
      rw [← h, hba]
      exact hhead

theorem trimChars_getLast {cs : List Char} {c : Char} (h : (trimChars cs).getLast? = some c) :
    isTrimmed c = false := by
  rw [trimChars, List.getLast?_reverse] at h
  obtain ⟨l, hl⟩ := List.head?_eq_some_iff.mp h
  have hne : (cs.dropWhile isTrimmed).reverse.dropWhile isTrimmed ≠ [] := by
    rw [hl]
    exact List.cons_ne_nil c l
  have hhead := List.head_dropWhile_not isTrimmed hne
  simp only [hl, List.head_cons] at hhead
  exact hhead

/-- A text with nothing to trim at its ends. -/
theorem trimChars_eq_self {cs : List Char} (hhead : ∀ c, cs.head? = some c → isTrimmed c = false)
    (hlast : ∀ c, cs.getLast? = some c → isTrimmed c = false) : trimChars cs = cs := by
  have hkeep : ∀ l : List Char, (∀ c, l.head? = some c → isTrimmed c = false) →
      l.dropWhile isTrimmed = l := by
    intro l hl
    cases l with
    | nil => rfl
    | cons a l => rw [List.dropWhile_cons_of_neg (by simp [hl a rfl])]
  rw [trimChars, hkeep cs hhead, hkeep cs.reverse (fun c hc => hlast c (by simpa using hc)),
    List.reverse_reverse]

theorem trimChars_subset (cs : List Char) : trimChars cs ⊆ cs := by
  intro c hc
  rw [trimChars, List.mem_reverse] at hc
  have h1 := (List.dropWhile_sublist isTrimmed).subset hc
  rw [List.mem_reverse] at h1
  exact (List.dropWhile_sublist isTrimmed).subset h1

/-- The parts a text is split into do not hold the separator. -/
theorem not_mem_of_mem_splitOn {a : Char} {cs l : List Char} (h : l ∈ cs.splitOn a) : a ∉ l := by
  induction cs generalizing l with
  | nil =>
    rw [List.splitOn_nil, List.mem_singleton] at h
    subst h
    exact List.not_mem_nil
  | cons c cs ih =>
    rw [List.splitOn_cons_eq_if_modifyHead] at h
    split at h
    · rcases List.mem_cons.mp h with rfl | h
      · exact List.not_mem_nil
      · exact ih h
    · rename_i hne
      cases hs : cs.splitOn a with
      | nil => exact absurd hs (List.splitOn_ne_nil a cs)
      | cons first rest =>
        rw [hs, List.modifyHead_cons] at h
        rcases List.mem_cons.mp h with rfl | h
        · have hfirst : a ∉ first := ih (by rw [hs]; exact List.mem_cons_self)
          simp only [List.mem_cons, not_or]
          exact ⟨fun heq => hne (by simp [heq]), hfirst⟩
        · exact ih (by rw [hs]; exact List.mem_cons_of_mem _ h)

end SymphonyBoard
