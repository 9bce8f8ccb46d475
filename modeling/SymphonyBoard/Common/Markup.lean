import Mathlib.Data.List.Infix
import Mathlib.Data.List.TakeDrop
import Mathlib.Logic.Basic
/-!
# Marked-up text and where it may be cut

Texts are lists of UTF-16 code units, as a JavaScript string is. `Markup`
is the grammar of a small HTML: characters, entities, and the elements `b`
and `a`, which nest. Escaped text may be cut anywhere if the half-written
entity at the cut is dropped (`Escaped.take`); an element may be cut
nowhere, since every complete text has a number of angle brackets that is
divisible by four (`Markup.dvd_marks`).
-/

namespace SymphonyBoard

/-- A JavaScript string: its UTF-16 code units. -/
abbrev JsText := List UInt16

namespace TextUnits

/-- A property of the units of a text is decided unit by unit, not over all
the units there are. -/
scoped instance (priority := high) decidableForall (p : UInt16 → Prop) [DecidablePred p]
    (s : JsText) : Decidable (∀ u ∈ s, p u) := List.decidableBAll p s

end TextUnits

open scoped TextUnits

/-- A character in units: two where it is beyond the basic plane. -/
def utf16Char (c : Char) : JsText :=
  if c.toNat < 0x10000 then [UInt16.ofNat c.toNat]
  else
    [UInt16.ofNat (0xd800 + (c.toNat - 0x10000) / 0x400),
      UInt16.ofNat (0xdc00 + (c.toNat - 0x10000) % 0x400)]

/-- A text in code units. -/
def utf16 (s : String) : JsText := s.toList.flatMap utf16Char

/-- A character outside the basic plane is two units, the first of which
stands for no character. -/
theorem utf16Char_append_inj {c d : Char} {s t : JsText}
    (h : utf16Char c ++ s = utf16Char d ++ t) : c = d ∧ s = t := by
  have hc := c.valid
  have hd := d.valid
  have hcn : c.toNat = c.val.toNat := rfl
  have hdn : d.toNat = d.val.toNat := rfl
  rw [UInt32.isValidChar, Nat.isValidChar, ← hcn] at hc
  rw [UInt32.isValidChar, Nat.isValidChar, ← hdn] at hd
  have hunit : ∀ {m n : ℕ}, m < 0x10000 → n < 0x10000 → UInt16.ofNat m = UInt16.ofNat n → m = n := by
    intro m n hm hn heq
    have hnat := congrArg UInt16.toNat heq
    rwa [UInt16.toNat_ofNat_of_lt' hm, UInt16.toNat_ofNat_of_lt' hn] at hnat
  have hchar : c.toNat = d.toNat → c = d := fun heq => Char.ext (UInt32.toNat_inj.mp heq)
  unfold utf16Char at h
  split at h <;> split at h
  · rename_i hlow hlow'
    obtain ⟨hu, hs⟩ := List.cons_eq_cons.mp h
    exact ⟨hchar (hunit hlow hlow' hu), hs⟩
  · rename_i hlow hhigh'
    have hu := hunit hlow (by omega) (List.cons_eq_cons.mp h).1
    omega
  · rename_i hhigh hlow'
    have hu := hunit (by omega) hlow' (List.cons_eq_cons.mp h).1
    omega
  · rename_i hhigh hhigh'
    obtain ⟨hu, htail⟩ := List.cons_eq_cons.mp h
    obtain ⟨hv, hs⟩ := List.cons_eq_cons.mp htail
    have hfirst := hunit (by omega) (by omega) hu
    have hsecond := hunit (by omega) (by omega) hv
    exact ⟨hchar (by omega), hs⟩

/-- **A text is read back from its units.** -/
theorem utf16_injective {s t : String} (h : utf16 s = utf16 t) : s = t := by
  have hlists : ∀ cs ds : List Char, cs.flatMap utf16Char = ds.flatMap utf16Char → cs = ds := by
    have hne : ∀ c : Char, utf16Char c ≠ [] := by
      intro c
      unfold utf16Char
      split <;> exact List.cons_ne_nil _ _
    intro cs
    induction cs with
    | nil =>
      intro ds h
      cases ds with
      | nil => rfl
      | cons d ds => exact absurd (List.append_eq_nil_iff.mp h.symm).1 (hne d)
    | cons c cs ih =>
      intro ds h
      cases ds with
      | nil => exact absurd (List.append_eq_nil_iff.mp h).1 (hne c)
      | cons d ds =>
        obtain ⟨rfl, hrest⟩ := utf16Char_append_inj h
        rw [ih ds hrest]
  exact String.toList_injective (hlists _ _ h)

/-- `<` -/
def unitLt : UInt16 := 60

/-- `>` -/
def unitGt : UInt16 := 62

/-- `&` -/
def unitAmp : UInt16 := 38

/-- `"` -/
def unitQuote : UInt16 := 34

/-- `;` -/
def unitSemicolon : UInt16 := 59

/-- The entities escaping writes. -/
def entityNames : List JsText := [utf16 "amp", utf16 "lt", utf16 "gt", utf16 "quot"]

/-- Text without markup: it may stand between tags, and in an attribute. -/
inductive Escaped : JsText → Prop
  | nil : Escaped []
  | unit {u : UInt16} {s : JsText} : u ∉ [unitLt, unitGt, unitAmp, unitQuote] → Escaped s →
      Escaped (u :: s)
  | entity {name s : JsText} : name ∈ entityNames → Escaped s →
      Escaped (unitAmp :: (name ++ unitSemicolon :: s))

/-- Complete text: every tag that is opened is closed, in order, and no
tag, attribute or entity is cut. -/
inductive Markup : JsText → Prop
  | nil : Markup []
  | unit {u : UInt16} {s : JsText} : u ∉ [unitLt, unitGt, unitAmp] → Markup s → Markup (u :: s)
  | entity {name s : JsText} : name ∈ entityNames → Markup s →
      Markup (unitAmp :: (name ++ unitSemicolon :: s))
  | bold {inner s : JsText} : Markup inner → Markup s →
      Markup (utf16 "<b>" ++ (inner ++ (utf16 "</b>" ++ s)))
  | link {url inner s : JsText} : Escaped url → Markup inner → Markup s →
      Markup (utf16 "<a href=\"" ++ (url ++ (utf16 "\">" ++ (inner ++ (utf16 "</a>" ++ s)))))

/-! ## Assembly -/

theorem Escaped.append {s t : JsText} (hs : Escaped s) (ht : Escaped t) : Escaped (s ++ t) := by
  induction hs with
  | nil => exact ht
  | unit hu _ ih => exact .unit hu ih
  | entity hname _ ih =>
    rw [List.cons_append, List.append_assoc]
    exact .entity hname ih

/-- Text with no markup character is escaped as it is. -/
theorem Escaped.of_plain {s : JsText} (h : ∀ u ∈ s, u ∉ [unitLt, unitGt, unitAmp, unitQuote]) :
    Escaped s := by
  induction s with
  | nil => exact .nil
  | cons u s ih =>
    obtain ⟨hu, hs⟩ := List.forall_mem_cons.mp h
    exact .unit hu (ih hs)

theorem Escaped.markup {s : JsText} (h : Escaped s) : Markup s := by
  induction h with
  | nil => exact .nil
  | unit hu _ ih =>
    refine .unit (fun hmem => hu ?_) ih
    simp only [List.mem_cons, List.not_mem_nil, or_false] at hmem ⊢
    rcases hmem with h | h | h
    · exact Or.inl h
    · exact Or.inr (Or.inl h)
    · exact Or.inr (Or.inr (Or.inl h))
  | entity hname _ ih => exact .entity hname ih

theorem Markup.append {s t : JsText} (hs : Markup s) (ht : Markup t) : Markup (s ++ t) := by
  induction hs with
  | nil => exact ht
  | unit hu _ ih => exact .unit hu ih
  | entity hname _ ih =>
    rw [List.cons_append, List.append_assoc]
    exact .entity hname ih
  | bold hinner _ _ ih =>
    simp only [List.append_assoc]
    exact .bold hinner ih
  | link hurl hinner _ _ ih =>
    simp only [List.append_assoc]
    exact .link hurl hinner ih

/-! ## Cutting escaped text -/

/-- `[a-z]`, in either case. -/
def isLetterUnit (u : UInt16) : Bool := (97 ≤ u && u ≤ 122) || (65 ≤ u && u ≤ 90)

/-- What follows the ampersand of an entity: letters, and a semicolon. -/
theorem entityNames_letters {name : JsText} (h : name ∈ entityNames) :
    (∀ u ∈ name, isLetterUnit u = true) ∧ name.length ≤ 5 ∧
      ∀ u ∈ name, u ∉ [unitLt, unitGt, unitAmp, unitQuote] := by
  have hall : ∀ name ∈ entityNames, (∀ u ∈ name, isLetterUnit u = true) ∧ name.length ≤ 5 ∧
      ∀ u ∈ name, u ∉ [unitLt, unitGt, unitAmp, unitQuote] := by decide
  exact hall name h

/-- **Escaped text, cut**: escaped text, and the beginning of an entity at
most. -/
theorem Escaped.take {s : JsText} (h : Escaped s) (n : ℕ) : ∃ done cut, s.take n = done ++ cut ∧
    Escaped done ∧ (cut = [] ∨ ∃ letters, cut = unitAmp :: letters ∧ letters.length ≤ 5 ∧
      ∀ u ∈ letters, isLetterUnit u = true) := by
  induction h generalizing n with
  | nil => exact ⟨[], [], by simp, .nil, Or.inl rfl⟩
  | @unit u s hu hs ih =>
    cases n with
    | zero => exact ⟨[], [], rfl, .nil, Or.inl rfl⟩
    | succ n =>
      obtain ⟨done, cut, htake, hdone, hcut⟩ := ih n
      exact ⟨u :: done, cut, by rw [List.take_succ_cons, htake, List.cons_append],
        .unit hu hdone, hcut⟩
  | @entity name s hname hs ih =>
    obtain ⟨hletters, hlength, -⟩ := entityNames_letters hname
    cases n with
    | zero => exact ⟨[], [], rfl, .nil, Or.inl rfl⟩
    | succ n =>
      rw [List.take_succ_cons, List.take_append]
      rcases Nat.lt_or_ge name.length n with hn | hn
      · obtain ⟨m, rfl⟩ : ∃ m, n = name.length + (m + 1) := ⟨n - name.length - 1, by omega⟩
        obtain ⟨done, cut, htake, hdone, hcut⟩ := ih m
        refine ⟨unitAmp :: (name ++ unitSemicolon :: done), cut, ?_, .entity hname hdone, hcut⟩
        rw [List.take_of_length_le (by omega), Nat.add_sub_cancel_left, List.take_succ_cons, htake]
        simp
      · refine ⟨[], unitAmp :: name.take n, ?_, .nil, Or.inr ⟨_, rfl, ?_, ?_⟩⟩
        · rw [Nat.sub_eq_zero_of_le hn, List.take_zero, List.append_nil, List.nil_append]
        · exact (List.length_take_le' n name).trans hlength
        · exact fun u hu => hletters u (List.mem_of_mem_take hu)

/-- Complete escaped text does not end in the beginning of an entity. -/
theorem Escaped.not_partial {s before letters : JsText} (h : Escaped s)
    (hs : s = before ++ unitAmp :: letters) : ∃ u ∈ letters, isLetterUnit u = false := by
  induction h generalizing before with
  | nil => simp at hs
  | @unit u s hu _ ih =>
    cases before with
    | nil =>
      obtain ⟨rfl, -⟩ := List.cons.inj hs
      exact absurd (by decide) hu
    | cons v before => exact ih (List.cons.inj hs).2
  | @entity name s hname _ ih =>
    cases before with
    | nil =>
      obtain ⟨-, rfl⟩ := List.cons.inj hs
      exact ⟨unitSemicolon, by simp, by decide⟩
    | cons v before =>
      have htail : name ++ unitSemicolon :: s = before ++ unitAmp :: letters := (List.cons.inj hs).2
      rcases List.append_eq_append_iff.mp htail with ⟨rest, hbefore, hrest⟩ | ⟨rest, hname', hrest⟩
      · cases rest with
        | nil =>
          have hunit := (List.cons.inj hrest).1
          exact absurd hunit (by decide)
        | cons w rest => exact ih (List.cons.inj hrest).2
      · -- the name of an entity has no ampersand in it
        cases rest with
        | nil =>
          have hunit := (List.cons.inj hrest).1
          exact absurd hunit (by decide)
        | cons w rest =>
          have hw : unitAmp = w := (List.cons.inj hrest).1
          have hmem : unitAmp ∈ name := by
            rw [hname', ← hw]
            exact List.mem_append_right _ List.mem_cons_self
          exact absurd (by decide) ((entityNames_letters hname).2.2 unitAmp hmem)

/-! ## Angle brackets -/

/-- A unit that may not stand bare in the text. -/
def isMark (u : UInt16) : Bool := u = unitLt || u = unitGt

/-- The angle brackets of a text. -/
def marks (s : JsText) : ℕ := s.countP isMark

@[simp] theorem marks_append (s t : JsText) : marks (s ++ t) = marks s + marks t :=
  List.countP_append

theorem Escaped.marks {s : JsText} (h : Escaped s) : marks s = 0 := by
  induction h with
  | nil => rfl
  | @unit u s hu _ ih =>
    have hmark : isMark u = false := by
      rw [List.mem_cons, List.mem_cons, not_or, not_or] at hu
      simp [isMark, hu.1, hu.2.1]
    rw [SymphonyBoard.marks, List.countP_cons_of_neg (by simp [hmark])]
    exact ih
  | @entity name s hname _ ih =>
    have hname : SymphonyBoard.marks name = 0 := by
      have hall : ∀ name ∈ entityNames, SymphonyBoard.marks name = 0 := by decide
      exact hall name hname
    have hsplit : unitAmp :: (name ++ unitSemicolon :: s) = [unitAmp] ++ name ++ [unitSemicolon] ++ s := by
      simp
    rw [hsplit, marks_append, marks_append, marks_append, hname, ih]
    rfl

/-- **The brackets of complete text come in fours.** -/
theorem Markup.dvd_marks {s : JsText} (h : Markup s) : 4 ∣ marks s := by
  induction h with
  | nil => exact Nat.dvd_zero 4
  | @unit u s hu _ ih =>
    have hmark : isMark u = false := by
      rw [List.mem_cons, List.mem_cons, not_or, not_or] at hu
      simp [isMark, hu.1, hu.2.1]
    rw [marks, List.countP_cons_of_neg (by simp [hmark])]
    exact ih
  | @entity name s hname _ ih =>
    have hentity : marks (unitAmp :: (name ++ unitSemicolon :: s)) =
        marks (unitAmp :: (name ++ unitSemicolon :: [])) + marks s := by
      rw [← marks_append]
      simp
    have hnone : marks (unitAmp :: (name ++ unitSemicolon :: [])) = 0 :=
      (Escaped.entity hname .nil).marks
    rw [hentity, hnone, Nat.zero_add]
    exact ih
  | bold _ _ ih ih' =>
    have hopen : marks (utf16 "<b>") = 2 := by decide
    have hclose : marks (utf16 "</b>") = 2 := by decide
    simp only [marks_append, hopen, hclose]
    omega
  | link hurl _ _ ih ih' =>
    have hopen : marks (utf16 "<a href=\"") = 1 := by decide
    have hend : marks (utf16 "\">") = 1 := by decide
    have hclose : marks (utf16 "</a>") = 2 := by decide
    simp only [marks_append, hopen, hend, hclose, hurl.marks]
    omega

/-- An element cut somewhere inside has some of its four brackets. -/
theorem marks_take_element {mid : JsText} {k : ℕ} (hmarks : marks mid = 2) (hpos : 0 < k)
    (hlt : k < (unitLt :: (mid ++ [unitGt])).length) :
    0 < marks ((unitLt :: (mid ++ [unitGt])).take k) ∧
      marks ((unitLt :: (mid ++ [unitGt])).take k) < 4 := by
  obtain ⟨k, rfl⟩ : ∃ j, k = j + 1 := ⟨k - 1, by omega⟩
  rw [List.length_cons, List.length_append, List.length_singleton] at hlt
  have hk : k ≤ mid.length := by omega
  have hmid : marks (mid.take k) ≤ 2 := by
    rw [← hmarks]
    exact (List.take_sublist k mid).countP_le
  have htake : (unitLt :: (mid ++ [unitGt])).take (k + 1) = [unitLt] ++ mid.take k := by
    rw [List.take_succ_cons, List.take_append_of_le_length hk]
    rfl
  have hone : marks [unitLt] = 1 := rfl
  rw [htake, marks_append, hone]
  omega

end SymphonyBoard
