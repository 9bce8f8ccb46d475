import SymphonyBoard.Common.Markup
/-!
# JSON texts

`JSON.stringify` and `JSON.parse` on texts of code units. The writer never
fails; a number without a numeral is written `null`, so what is read back
is the value with those numbers replaced (`parse_stringify`), and it is the
value itself when every number survives its own numeral
(`reread_eq_self_iff`). The text written holds no unpaired surrogate
(`wellFormed_stringify`): a text column keeps it as it is, which is more
than can be said of any text.

How a number is written is a parameter.
-/

namespace SymphonyBoard

open scoped TextUnits

/-! ## Well-formed texts -/

/-- The first unit of a pair. -/
def isHighSurrogate (u : UInt16) : Bool := 0xd800 ≤ u && u ≤ 0xdbff

/-- The second unit of a pair. -/
def isLowSurrogate (u : UInt16) : Bool := 0xdc00 ≤ u && u ≤ 0xdfff

/-- A unit of a pair. -/
def isSurrogate (u : UInt16) : Bool := isHighSurrogate u || isLowSurrogate u

/-- `String.prototype.toWellFormed`, which is also what a text is after it
went through UTF-8. -/
def toWellFormed : JsText → JsText
  | [] => []
  | [u] => [if isSurrogate u then 0xfffd else u]
  | u :: v :: s =>
    if isHighSurrogate u && isLowSurrogate v then u :: v :: toWellFormed s
    else (if isSurrogate u then 0xfffd else u) :: toWellFormed (v :: s)

/-- Every surrogate of the text is one of a pair. -/
inductive WellFormed : JsText → Prop
  | nil : WellFormed []
  | unit {u : UInt16} {s : JsText} : isSurrogate u = false → WellFormed s → WellFormed (u :: s)
  | pair {u v : UInt16} {s : JsText} : isHighSurrogate u = true → isLowSurrogate v = true →
      WellFormed s → WellFormed (u :: v :: s)

theorem WellFormed.append {s t : JsText} (hs : WellFormed s) (ht : WellFormed t) :
    WellFormed (s ++ t) := by
  induction hs with
  | nil => exact ht
  | unit hu _ ih => exact .unit hu ih
  | pair hu hv _ ih => exact .pair hu hv ih

theorem WellFormed.of_units {s : JsText} (h : ∀ u ∈ s, isSurrogate u = false) : WellFormed s := by
  induction s with
  | nil => exact .nil
  | cons u s ih =>
    obtain ⟨hu, hs⟩ := List.forall_mem_cons.mp h
    exact .unit hu (ih hs)

theorem isSurrogate_replacement : isSurrogate 0xfffd = false := by decide

theorem wellFormed_toWellFormed (s : JsText) : WellFormed (toWellFormed s) := by
  have hone : ∀ u : UInt16, isSurrogate (if isSurrogate u then 0xfffd else u) = false := by
    intro u
    cases hu : isSurrogate u with
    | false => simpa using hu
    | true => exact isSurrogate_replacement
  fun_induction toWellFormed s with
  | case1 => exact .nil
  | case2 u => exact .unit (hone u) .nil
  | case3 u v s h ih =>
    rw [Bool.and_eq_true] at h
    exact .pair h.1 h.2 ih
  | case4 u v s _ ih => exact .unit (hone u) ih

theorem toWellFormed_of_wellFormed {s : JsText} (h : WellFormed s) : toWellFormed s = s := by
  induction h with
  | nil => rfl
  | @unit u s hu _ ih =>
    have hhigh : isHighSurrogate u = false := (Bool.or_eq_false_iff.mp hu).1
    cases s with
    | nil => simp [toWellFormed, hu]
    | cons v s => simp [toWellFormed, hhigh, hu, ih]
  | pair hu hv _ ih => simp [toWellFormed, hu, hv, ih]

/-- **A text survives UTF-8** when its surrogates are paired, and only
then. -/
theorem toWellFormed_eq_self_iff {s : JsText} : toWellFormed s = s ↔ WellFormed s := by
  constructor
  · intro h
    rw [← h]
    exact wellFormed_toWellFormed s
  · exact toWellFormed_of_wellFormed

/-! ## Values -/

/-- What `JSON.parse` returns; the fields of an object in the order of its
properties. -/
inductive JsValue (N : Type)
  | null
  | bool (b : Bool)
  | num (n : N)
  | str (s : JsText)
  | arr (elems : List (JsValue N))
  | obj (fields : List (JsText × JsValue N))

/-- The unit of a comma. -/
def unitComma : UInt16 := 44

/-- The unit of a colon. -/
def unitColon : UInt16 := 58

/-- The unit of a backslash. -/
def unitBackslash : UInt16 := 92

/-- The unit of an opening bracket. -/
def unitOpenBracket : UInt16 := 91

/-- The unit of a closing bracket. -/
def unitCloseBracket : UInt16 := 93

/-- The unit of an opening brace. -/
def unitOpenBrace : UInt16 := 123

/-- The unit of a closing brace. -/
def unitCloseBrace : UInt16 := 125

/-- `[0-9+\-.eE]`. -/
def isNumberUnit (u : UInt16) : Bool :=
  (48 ≤ u && u ≤ 57) || u = 43 || u = 45 || u = 46 || u = 101 || u = 69

/-- How numbers are written and read. A number that is not finite has no
numeral; a numeral that was written can be read, if not always as the
number it was written for. -/
structure NumberFormat (N : Type) where
  write : N → Option JsText
  read : JsText → Option N
  numeral : ∀ n t, write n = some t → t ≠ [] ∧ ∀ u ∈ t, isNumberUnit u = true
  readable : ∀ n t, write n = some t → (read t).isSome

/-! ## Writing -/

/-- A hexadecimal digit, in lower case. -/
def hexUnit (d : ℕ) : UInt16 := UInt16.ofNat (if d < 10 then 48 + d else 87 + d)

/-- The escape `\uXXXX`. -/
def unicodeEscape (u : UInt16) : JsText :=
  [unitBackslash, 117, hexUnit (u.toNat / 4096), hexUnit (u.toNat / 256 % 16),
    hexUnit (u.toNat / 16 % 16), hexUnit (u.toNat % 16)]

/-- The escapes with a letter of their own, and the units they stand for. -/
def letterEscapes : List (UInt16 × UInt16) :=
  [(34, 34), (92, 92), (47, 47), (98, 8), (102, 12), (110, 10), (114, 13), (116, 9)]

/-- A unit of a string that is not one of a pair. -/
def quoteUnit (u : UInt16) : JsText :=
  if u = 8 then [unitBackslash, 98]
  else if u = 9 then [unitBackslash, 116]
  else if u = 10 then [unitBackslash, 110]
  else if u = 12 then [unitBackslash, 102]
  else if u = 13 then [unitBackslash, 114]
  else if u = unitQuote then [unitBackslash, unitQuote]
  else if u = unitBackslash then [unitBackslash, unitBackslash]
  else if u < 32 ∨ isSurrogate u then unicodeEscape u
  else [u]

/-- A text between its quotes: pairs stay, and the rest is escaped unit by unit. -/
def quoteUnits : JsText → JsText
  | [] => []
  | [u] => quoteUnit u
  | u :: v :: s =>
    if isHighSurrogate u && isLowSurrogate v then u :: v :: quoteUnits s
    else quoteUnit u ++ quoteUnits (v :: s)

/-- A string, in quotes. -/
def quote (s : JsText) : JsText := unitQuote :: (quoteUnits s ++ [unitQuote])

variable {N : Type}

mutual

/-- `JSON.stringify`. -/
def stringify (f : NumberFormat N) : JsValue N → JsText
  | .null => utf16 "null"
  | .bool b => if b then utf16 "true" else utf16 "false"
  | .num n => (f.write n).getD (utf16 "null")
  | .str s => quote s
  | .arr [] => [unitOpenBracket, unitCloseBracket]
  | .arr (elem :: elems) => unitOpenBracket :: (stringify f elem ++ stringifyElems f elems)
  | .obj [] => [unitOpenBrace, unitCloseBrace]
  | .obj ((name, value) :: fields) =>
    unitOpenBrace :: (quote name ++ unitColon :: (stringify f value ++ stringifyFields f fields))

/-- The elements after the first, and the bracket. -/
def stringifyElems (f : NumberFormat N) : List (JsValue N) → JsText
  | [] => [unitCloseBracket]
  | elem :: elems => unitComma :: (stringify f elem ++ stringifyElems f elems)

/-- The properties after the first, and the brace. -/
def stringifyFields (f : NumberFormat N) : List (JsText × JsValue N) → JsText
  | [] => [unitCloseBrace]
  | (name, value) :: fields =>
    unitComma :: (quote name ++ unitColon :: (stringify f value ++ stringifyFields f fields))

end

/-! ## Reading -/

/-- White space of the grammar. -/
def isSpaceUnit (u : UInt16) : Bool := u = 32 || u = 9 || u = 10 || u = 13

/-- The value of a hexadecimal digit. -/
def hexUnitVal (u : UInt16) : Option ℕ :=
  if 48 ≤ u ∧ u ≤ 57 then some (u.toNat - 48)
  else if 97 ≤ u ∧ u ≤ 102 then some (u.toNat - 87)
  else if 65 ≤ u ∧ u ≤ 70 then some (u.toNat - 55)
  else none

/-- A string from behind its opening quote, and what follows it. -/
def readString : JsText → Option (JsText × JsText)
  | [] => none
  | u :: s =>
    if u = unitQuote then some ([], s)
    else if u = unitBackslash then
      match s with
      | [] => none
      | e :: s =>
        if e = 117 then
          match s with
          | a :: b :: c :: d :: s => do
            let a ← hexUnitVal a
            let b ← hexUnitVal b
            let c ← hexUnitVal c
            let d ← hexUnitVal d
            let r ← readString s
            pure (UInt16.ofNat (a * 4096 + b * 256 + c * 16 + d) :: r.1, r.2)
          | _ => none
        else do
          let v ← letterEscapes.lookup e
          let r ← readString s
          pure (v :: r.1, r.2)
    else if u < 32 then none
    else (readString s).map fun r => (u :: r.1, r.2)

/-- What follows a word, if the text starts with it. -/
def stripWord : JsText → JsText → Option JsText
  | [], s => some s
  | w :: ws, u :: s => if w = u then stripWord ws s else none
  | _ :: _, [] => none

mutual

/-- A value, and what follows it. -/
def readValue (f : NumberFormat N) : ℕ → JsText → Option (JsValue N × JsText)
  | 0, _ => none
  | fuel + 1, text =>
    match text.dropWhile isSpaceUnit with
    | [] => none
    | u :: s =>
      if u = unitQuote then (readString s).map fun r => (.str r.1, r.2)
      else if u = unitOpenBracket then
        match s.dropWhile isSpaceUnit with
        | [] => none
        | v :: t =>
          if v = unitCloseBracket then some (.arr [], t)
          else do
            let elem ← readValue f fuel (v :: t)
            let elems ← readElems f fuel elem.2
            pure (.arr (elem.1 :: elems.1), elems.2)
      else if u = unitOpenBrace then
        match s.dropWhile isSpaceUnit with
        | [] => none
        | v :: t =>
          if v = unitCloseBrace then some (.obj [], t)
          else do
            let field ← readField f fuel (v :: t)
            let fields ← readFields f fuel field.2
            pure (.obj (field.1 :: fields.1), fields.2)
      else if u = 110 then (stripWord (utf16 "ull") s).map fun r => (.null, r)
      else if u = 116 then (stripWord (utf16 "rue") s).map fun r => (.bool true, r)
      else if u = 102 then (stripWord (utf16 "alse") s).map fun r => (.bool false, r)
      else (f.read ((u :: s).takeWhile isNumberUnit)).map fun n =>
        (.num n, (u :: s).dropWhile isNumberUnit)

/-- The elements after the first, up to the bracket. -/
def readElems (f : NumberFormat N) : ℕ → JsText → Option (List (JsValue N) × JsText)
  | 0, _ => none
  | fuel + 1, text =>
    match text.dropWhile isSpaceUnit with
    | [] => none
    | u :: s =>
      if u = unitCloseBracket then some ([], s)
      else if u = unitComma then do
        let elem ← readValue f fuel s
        let elems ← readElems f fuel elem.2
        pure (elem.1 :: elems.1, elems.2)
      else none

/-- A property: its name, a colon and its value. -/
def readField (f : NumberFormat N) : ℕ → JsText → Option ((JsText × JsValue N) × JsText)
  | 0, _ => none
  | fuel + 1, text =>
    match text.dropWhile isSpaceUnit with
    | [] => none
    | q :: s =>
      if q = unitQuote then do
        let name ← readString s
        match name.2.dropWhile isSpaceUnit with
        | [] => none
        | c :: s =>
          if c = unitColon then (readValue f fuel s).map fun r => ((name.1, r.1), r.2) else none
      else none

/-- The properties after the first, up to the brace. -/
def readFields (f : NumberFormat N) : ℕ → JsText → Option (List (JsText × JsValue N) × JsText)
  | 0, _ => none
  | fuel + 1, text =>
    match text.dropWhile isSpaceUnit with
    | [] => none
    | u :: s =>
      if u = unitCloseBrace then some ([], s)
      else if u = unitComma then do
        let field ← readField f fuel s
        let fields ← readFields f fuel field.2
        pure (field.1 :: fields.1, fields.2)
      else none

end

/-- `JSON.parse`. Every step down takes a unit off the text, so its length is
fuel enough. -/
def parse (f : NumberFormat N) (text : JsText) : Option (JsValue N) :=
  match readValue f (text.length + 1) text with
  | none => none
  | some (value, rest) => if rest.all isSpaceUnit then some value else none

/-! ## Reading what was written -/

mutual

/-- A value as it is after writing and reading it. -/
def reread (f : NumberFormat N) : JsValue N → JsValue N
  | .null => .null
  | .bool b => .bool b
  | .num n => ((f.write n).bind f.read).elim .null .num
  | .str s => .str s
  | .arr elems => .arr (rereadElems f elems)
  | .obj fields => .obj (rereadFields f fields)

/-- The elements of an array, read back. -/
def rereadElems (f : NumberFormat N) : List (JsValue N) → List (JsValue N)
  | [] => []
  | elem :: elems => reread f elem :: rereadElems f elems

/-- The fields of an object, read back. -/
def rereadFields (f : NumberFormat N) : List (JsText × JsValue N) → List (JsText × JsValue N)
  | [] => []
  | (name, value) :: fields => (name, reread f value) :: rereadFields f fields

end

/-- A number that is read as itself from its own numeral. -/
def NumberFormat.Survives (f : NumberFormat N) (n : N) : Prop := (f.write n).bind f.read = some n

mutual

/-- Every number of the value survives. -/
def NumbersSurvive (f : NumberFormat N) : JsValue N → Prop
  | .num n => f.Survives n
  | .arr elems => ElemsSurvive f elems
  | .obj fields => FieldsSurvive f fields
  | _ => True

/-- The numbers of an array are read back as they were. -/
def ElemsSurvive (f : NumberFormat N) : List (JsValue N) → Prop
  | [] => True
  | elem :: elems => NumbersSurvive f elem ∧ ElemsSurvive f elems

/-- The numbers of an object are read back as they were. -/
def FieldsSurvive (f : NumberFormat N) : List (JsText × JsValue N) → Prop
  | [] => True
  | (_, value) :: fields => NumbersSurvive f value ∧ FieldsSurvive f fields

end

/-! ### Strings -/

theorem hexUnitVal_hexUnit {d : ℕ} (h : d < 16) : hexUnitVal (hexUnit d) = some d := by
  have aux : ∀ d : Fin 16, hexUnitVal (hexUnit d) = some d.val := by decide
  exact aux ⟨d, h⟩

theorem ofNat_hexDigits (u : UInt16) :
    UInt16.ofNat (u.toNat / 4096 * 4096 + u.toNat / 256 % 16 * 256 + u.toNat / 16 % 16 * 16 +
      u.toNat % 16) = u := by
  have h : u.toNat / 4096 * 4096 + u.toNat / 256 % 16 * 256 + u.toNat / 16 % 16 * 16 +
      u.toNat % 16 = u.toNat := by omega
  rw [h]
  exact UInt16.ofNat_toNat

theorem readString_unicodeEscape (u : UInt16) (s : JsText) :
    readString (unicodeEscape u ++ s) = (readString s).map fun r => (u :: r.1, r.2) := by
  have hlt : u.toNat < 65536 := u.toNat_lt
  have h1 : hexUnitVal (hexUnit (u.toNat / 4096)) = some (u.toNat / 4096) :=
    hexUnitVal_hexUnit (by omega)
  have h2 : hexUnitVal (hexUnit (u.toNat / 256 % 16)) = some (u.toNat / 256 % 16) :=
    hexUnitVal_hexUnit (by omega)
  have h3 : hexUnitVal (hexUnit (u.toNat / 16 % 16)) = some (u.toNat / 16 % 16) :=
    hexUnitVal_hexUnit (by omega)
  have h4 : hexUnitVal (hexUnit (u.toNat % 16)) = some (u.toNat % 16) :=
    hexUnitVal_hexUnit (by omega)
  rw [unicodeEscape]
  simp only [List.cons_append, List.nil_append]
  rw [readString]
  simp only [show ¬unitBackslash = unitQuote by decide, if_false, if_true, h1, h2, h3, h4,
    Option.bind_eq_bind, Option.bind_some, ofNat_hexDigits]
  cases readString s <;> rfl

theorem readString_unitQuote (s : JsText) : readString (unitQuote :: s) = some ([], s) := by
  rw [readString.eq_def]
  simp only [if_true]

/-- A unit that stands for itself in a string. -/
theorem readString_plain {u : UInt16} (hq : u ≠ unitQuote) (hb : u ≠ unitBackslash) (hc : ¬u < 32)
    (s : JsText) : readString (u :: s) = (readString s).map fun r => (u :: r.1, r.2) := by
  rw [readString.eq_def]
  simp only [if_neg hq, if_neg hb, if_neg hc]

theorem readString_quoteUnit (u : UInt16) (s : JsText) :
    readString (quoteUnit u ++ s) = (readString s).map fun r => (u :: r.1, r.2) := by
  have hletter : ∀ e v : UInt16, e ≠ 117 → letterEscapes.lookup e = some v →
      readString (unitBackslash :: e :: s) = (readString s).map fun r => (v :: r.1, r.2) := by
    intro e v he hv
    rw [readString.eq_def]
    simp only [show ¬unitBackslash = unitQuote by decide, if_false, if_true, he, hv,
      Option.bind_eq_bind, Option.bind_some]
    cases readString s <;> rfl
  rw [quoteUnit]
  by_cases h8 : u = 8
  · rw [if_pos h8, h8]
    exact hletter 98 8 (by decide) (by decide)
  rw [if_neg h8]
  by_cases h9 : u = 9
  · rw [if_pos h9, h9]
    exact hletter 116 9 (by decide) (by decide)
  rw [if_neg h9]
  by_cases h10 : u = 10
  · rw [if_pos h10, h10]
    exact hletter 110 10 (by decide) (by decide)
  rw [if_neg h10]
  by_cases h12 : u = 12
  · rw [if_pos h12, h12]
    exact hletter 102 12 (by decide) (by decide)
  rw [if_neg h12]
  by_cases h13 : u = 13
  · rw [if_pos h13, h13]
    exact hletter 114 13 (by decide) (by decide)
  rw [if_neg h13]
  by_cases hq : u = unitQuote
  · rw [if_pos hq, hq]
    exact hletter unitQuote unitQuote (by decide) (by decide)
  rw [if_neg hq]
  by_cases hb : u = unitBackslash
  · rw [if_pos hb, hb]
    exact hletter unitBackslash unitBackslash (by decide) (by decide)
  rw [if_neg hb]
  by_cases hc : u < 32 ∨ isSurrogate u = true
  · rw [if_pos hc]
    exact readString_unicodeEscape u s
  · rw [if_neg hc]
    exact readString_plain hq hb (fun h => hc (Or.inl h)) s

theorem plain_of_isHighSurrogate {u : UInt16} (h : isHighSurrogate u = true) :
    u ≠ unitQuote ∧ u ≠ unitBackslash ∧ ¬u < 32 := by
  simp only [isHighSurrogate, Bool.and_eq_true, decide_eq_true_eq] at h
  refine ⟨?_, ?_, ?_⟩
  · rintro rfl
    exact absurd h (by decide)
  · rintro rfl
    exact absurd h (by decide)
  · intro hlt
    have h1 := UInt16.le_iff_toNat_le.mp h.1
    have h2 := UInt16.lt_iff_toNat_lt.mp hlt
    have h3 : (0xd800 : UInt16).toNat = 0xd800 := by decide
    have h4 : (32 : UInt16).toNat = 32 := by decide
    omega

theorem plain_of_isLowSurrogate {u : UInt16} (h : isLowSurrogate u = true) :
    u ≠ unitQuote ∧ u ≠ unitBackslash ∧ ¬u < 32 := by
  simp only [isLowSurrogate, Bool.and_eq_true, decide_eq_true_eq] at h
  refine ⟨?_, ?_, ?_⟩
  · rintro rfl
    exact absurd h (by decide)
  · rintro rfl
    exact absurd h (by decide)
  · intro hlt
    have h1 := UInt16.le_iff_toNat_le.mp h.1
    have h2 := UInt16.lt_iff_toNat_lt.mp hlt
    have h3 : (0xdc00 : UInt16).toNat = 0xdc00 := by decide
    have h4 : (32 : UInt16).toNat = 32 := by decide
    omega

/-- **A string is read as it was written**, whatever is in it. -/
theorem readString_quoteUnits (s rest : JsText) :
    readString (quoteUnits s ++ unitQuote :: rest) = some (s, rest) := by
  fun_induction quoteUnits s with
  | case1 => exact readString_unitQuote rest
  | case2 u =>
    rw [readString_quoteUnit, readString_unitQuote]
    rfl
  | case3 u v s h ih =>
    rw [Bool.and_eq_true] at h
    obtain ⟨hq, hb, hc⟩ := plain_of_isHighSurrogate h.1
    obtain ⟨hq', hb', hc'⟩ := plain_of_isLowSurrogate h.2
    rw [List.cons_append, List.cons_append, readString_plain hq hb hc,
      readString_plain hq' hb' hc', ih]
    rfl
  | case4 u v s _ ih =>
    rw [List.append_assoc, readString_quoteUnit, ih]
    rfl

theorem readString_quote (s rest : JsText) :
    quote s ++ rest = unitQuote :: (quoteUnits s ++ unitQuote :: rest) := by
  simp [quote]

/-! ### Values -/

/-- What follows a numeral does not go on with it. -/
def EndsNumeral (rest : JsText) : Prop := ∀ u ∈ rest.head?, isNumberUnit u = false

theorem endsNumeral_nil : EndsNumeral [] := by simp [EndsNumeral]

theorem endsNumeral_cons {u : UInt16} {s : JsText} (h : isNumberUnit u = false) :
    EndsNumeral (u :: s) := by
  simpa [EndsNumeral] using h

theorem endsNumeral_stringifyElems (f : NumberFormat N) (elems : List (JsValue N)) (rest : JsText) :
    EndsNumeral (stringifyElems f elems ++ rest) := by
  cases elems with
  | nil => exact endsNumeral_cons (by decide)
  | cons elem elems => exact endsNumeral_cons (by decide)

theorem endsNumeral_stringifyFields (f : NumberFormat N) (fields : List (JsText × JsValue N))
    (rest : JsText) : EndsNumeral (stringifyFields f fields ++ rest) := by
  cases fields with
  | nil => exact endsNumeral_cons (by decide)
  | cons field fields => exact endsNumeral_cons (by decide)

/-- A numeral is taken off a text as a whole. -/
theorem takeWhile_numeral {t rest : JsText} (ht : ∀ u ∈ t, isNumberUnit u = true)
    (hrest : EndsNumeral rest) :
    (t ++ rest).takeWhile isNumberUnit = t ∧ (t ++ rest).dropWhile isNumberUnit = rest := by
  have hstop : rest.takeWhile isNumberUnit = [] ∧ rest.dropWhile isNumberUnit = rest := by
    cases rest with
    | nil => simp
    | cons u rest =>
      have hu : isNumberUnit u = false := hrest u rfl
      simp [hu]
  rw [List.takeWhile_append_of_pos ht, List.dropWhile_append_of_pos ht, hstop.1, hstop.2,
    List.append_nil]
  exact ⟨rfl, rfl⟩

theorem not_number_dispatch {u : UInt16} (h : isNumberUnit u = true) :
    isSpaceUnit u = false ∧ u ≠ unitQuote ∧ u ≠ unitOpenBracket ∧ u ≠ unitOpenBrace ∧ u ≠ 110 ∧
      u ≠ 116 ∧ u ≠ 102 ∧ u ≠ unitCloseBracket ∧ isSurrogate u = false := by
  have hle : u.toNat ≤ 101 := by
    simp only [isNumberUnit, Bool.or_eq_true, Bool.and_eq_true, decide_eq_true_eq] at h
    rcases h with ((((⟨-, h⟩ | h) | h) | h) | h) | h
    · have h1 := UInt16.le_iff_toNat_le.mp h
      have h2 : (57 : UInt16).toNat = 57 := by decide
      omega
    all_goals
      rw [h]
      decide
  have aux : ∀ n : Fin 102, isNumberUnit (UInt16.ofNat n) = true →
      isSpaceUnit (UInt16.ofNat n) = false ∧ UInt16.ofNat n ≠ unitQuote ∧
        UInt16.ofNat n ≠ unitOpenBracket ∧ UInt16.ofNat n ≠ unitOpenBrace ∧
        UInt16.ofNat n ≠ 110 ∧ UInt16.ofNat n ≠ 116 ∧ UInt16.ofNat n ≠ 102 ∧
        UInt16.ofNat n ≠ unitCloseBracket ∧ isSurrogate (UInt16.ofNat n) = false := by decide
  have hu : UInt16.ofNat u.toNat = u := UInt16.ofNat_toNat
  have hfin := aux ⟨u.toNat, by omega⟩
  simp only [hu] at hfin
  exact hfin h

/-- A numeral, or `null` for a number without one. -/
theorem readValue_num (f : NumberFormat N) (n : N) (fuel : ℕ) {rest : JsText}
    (hrest : EndsNumeral rest) :
    readValue f (fuel + 1) ((f.write n).getD (utf16 "null") ++ rest) =
      some (((f.write n).bind f.read).elim .null .num, rest) := by
  cases ht : f.write n with
  | none => rfl
  | some t =>
    obtain ⟨hne, hunits⟩ := f.numeral n t ht
    obtain ⟨m, hm⟩ := Option.isSome_iff_exists.mp (f.readable n t ht)
    obtain ⟨u, s, rfl⟩ := List.exists_cons_of_ne_nil hne
    obtain ⟨hspace, h1, h2, h3, h4, h5, h6, -, -⟩ :=
      not_number_dispatch (hunits u List.mem_cons_self)
    obtain ⟨htake, hdrop⟩ := takeWhile_numeral hunits hrest
    rw [List.cons_append] at htake hdrop
    have hskip : (u :: (s ++ rest)).dropWhile isSpaceUnit = u :: (s ++ rest) := by
      rw [List.dropWhile_cons, if_neg (by rw [hspace]; exact Bool.false_ne_true)]
    rw [Option.getD_some, List.cons_append, readValue, hskip]
    simp only [if_neg h1, if_neg h2, if_neg h3, if_neg h4, if_neg h5, if_neg h6, htake, hdrop, hm,
      Option.bind_some, Option.map_some, Option.elim_some]

/-- A value's text starts where the reader looks for a value, not at the end
of an array. -/
theorem stringify_eq_cons (f : NumberFormat N) (v : JsValue N) :
    ∃ u s, stringify f v = u :: s ∧ isSpaceUnit u = false ∧ u ≠ unitCloseBracket := by
  cases v with
  | null => exact ⟨_, _, rfl, by decide, by decide⟩
  | bool b => cases b <;> exact ⟨_, _, rfl, by decide, by decide⟩
  | str s => exact ⟨_, _, rfl, by decide, by decide⟩
  | arr elems => cases elems <;> exact ⟨_, _, rfl, by decide, by decide⟩
  | obj fields => cases fields <;> exact ⟨_, _, rfl, by decide, by decide⟩
  | num n =>
    rw [stringify]
    cases ht : f.write n with
    | none => exact ⟨_, _, rfl, by decide, by decide⟩
    | some t =>
      obtain ⟨hne, hunits⟩ := f.numeral n t ht
      obtain ⟨u, s, rfl⟩ := List.exists_cons_of_ne_nil hne
      obtain ⟨hspace, -, -, -, -, -, -, hclose, -⟩ :=
        not_number_dispatch (hunits u List.mem_cons_self)
      exact ⟨u, s, rfl, hspace, hclose⟩

theorem readField_stringify {f : NumberFormat N} {name : JsText} {value value' : JsValue N}
    {fuel : ℕ} {rest : JsText}
    (h : readValue f fuel (stringify f value ++ rest) = some (value', rest)) :
    readField f (fuel + 1) (quote name ++ unitColon :: (stringify f value ++ rest)) =
      some ((name, value'), rest) := by
  rw [readString_quote, readField]
  simp only [List.dropWhile_cons, show isSpaceUnit unitQuote = false by decide,
    show isSpaceUnit unitColon = false by decide, Bool.false_eq_true, if_false, if_true,
    readString_quoteUnits, Option.bind_eq_bind, Option.bind_some, h, Option.map_some]

mutual

/-- **A value is read from its text**, with the numbers that do not survive
replaced, and with all that follows the text left over. -/
theorem readValue_stringify (f : NumberFormat N) : ∀ (v : JsValue N) (fuel : ℕ) (rest : JsText),
    (stringify f v).length ≤ fuel → EndsNumeral rest →
      readValue f fuel (stringify f v ++ rest) = some (reread f v, rest)
  | v, 0, _, h, _ => by
    obtain ⟨u, s, hv, -⟩ := stringify_eq_cons f v
    rw [hv] at h
    exact absurd h (by simp)
  | .null, fuel + 1, rest, _, _ => rfl
  | .bool true, fuel + 1, rest, _, _ => rfl
  | .bool false, fuel + 1, rest, _, _ => rfl
  | .num n, fuel + 1, rest, _, hrest => readValue_num f n fuel hrest
  | .str s, fuel + 1, rest, _, _ => by
    rw [stringify, readString_quote, readValue]
    simp only [List.dropWhile_cons, show isSpaceUnit unitQuote = false by decide,
      Bool.false_eq_true, if_false, if_true, readString_quoteUnits, Option.map_some]
    rfl
  | .arr [], fuel + 1, rest, _, _ => rfl
  | .arr (elem :: elems), fuel + 1, rest, h, _ => by
    rw [stringify, List.length_cons, List.length_append] at h
    -- the fuel pays for the element, then for the rest of the array
    have helem := readValue_stringify f elem fuel (stringifyElems f elems ++ rest) (by omega)
      (endsNumeral_stringifyElems f elems rest)
    have helems := readElems_stringify f elems fuel rest (by omega)
    obtain ⟨u, s, hu, hspace, hclose⟩ := stringify_eq_cons f elem
    rw [stringify, List.cons_append, List.append_assoc, readValue]
    rw [hu, List.cons_append] at helem ⊢
    simp only [List.dropWhile_cons, show isSpaceUnit unitOpenBracket = false by decide, hspace,
      Bool.false_eq_true, if_false, if_true, if_neg hclose,
      show ¬unitOpenBracket = unitQuote by decide, helem, helems, Option.bind_eq_bind,
      Option.bind_some]
    rfl
  | .obj [], fuel + 1, rest, _, _ => rfl
  | .obj ((name, value) :: fields), fuel + 1, rest, h, _ => by
    rw [stringify, List.length_cons, List.length_append, List.length_cons, List.length_append] at h
    obtain ⟨fuel, rfl⟩ : ∃ k, fuel = k + 1 := ⟨fuel - 1, by omega⟩
    -- and here for the value of the first field, then for the others
    have hvalue := readValue_stringify f value fuel (stringifyFields f fields ++ rest)
      (by simp only [quote, List.length_cons] at h; omega)
      (endsNumeral_stringifyFields f fields rest)
    have hfields := readFields_stringify f fields (fuel + 1) rest (by omega)
    have hfield := @readField_stringify _ _ name _ _ _ _ hvalue
    rw [stringify, List.cons_append, List.append_assoc, List.cons_append, List.append_assoc,
      readValue]
    rw [readString_quote] at hfield ⊢
    simp only [List.dropWhile_cons, show isSpaceUnit unitOpenBrace = false by decide,
      show isSpaceUnit unitQuote = false by decide, Bool.false_eq_true, if_false, if_true,
      show ¬unitOpenBrace = unitQuote by decide, show ¬unitOpenBrace = unitOpenBracket by decide,
      show ¬unitQuote = unitCloseBrace by decide, hfield, hfields, Option.bind_eq_bind,
      Option.bind_some]
    rfl

theorem readElems_stringify (f : NumberFormat N) : ∀ (elems : List (JsValue N)) (fuel : ℕ)
    (rest : JsText), (stringifyElems f elems).length ≤ fuel →
      readElems f fuel (stringifyElems f elems ++ rest) = some (rereadElems f elems, rest)
  | [], 0, _, h => absurd h (by simp [stringifyElems])
  | _ :: _, 0, _, h => absurd h (by simp [stringifyElems])
  | [], fuel + 1, rest, _ => rfl
  | elem :: elems, fuel + 1, rest, h => by
    rw [stringifyElems, List.length_cons, List.length_append] at h
    have helem := readValue_stringify f elem fuel (stringifyElems f elems ++ rest) (by omega)
      (endsNumeral_stringifyElems f elems rest)
    have helems := readElems_stringify f elems fuel rest (by omega)
    rw [stringifyElems, List.cons_append, List.append_assoc, readElems]
    simp only [List.dropWhile_cons, show isSpaceUnit unitComma = false by decide,
      Bool.false_eq_true, if_false, if_true, show ¬unitComma = unitCloseBracket by decide, helem,
      helems, Option.bind_eq_bind, Option.bind_some]
    rfl

theorem readFields_stringify (f : NumberFormat N) : ∀ (fields : List (JsText × JsValue N))
    (fuel : ℕ) (rest : JsText), (stringifyFields f fields).length ≤ fuel →
      readFields f fuel (stringifyFields f fields ++ rest) = some (rereadFields f fields, rest)
  | [], 0, _, h => absurd h (by simp [stringifyFields])
  | _ :: _, 0, _, h => absurd h (by simp [stringifyFields])
  | [], fuel + 1, rest, _ => rfl
  | (name, value) :: fields, fuel + 1, rest, h => by
    rw [stringifyFields, List.length_cons, List.length_append, List.length_cons,
      List.length_append] at h
    obtain ⟨fuel, rfl⟩ : ∃ k, fuel = k + 1 := ⟨fuel - 1, by omega⟩
    have hvalue := readValue_stringify f value fuel (stringifyFields f fields ++ rest)
      (by simp only [quote, List.length_cons] at h; omega)
      (endsNumeral_stringifyFields f fields rest)
    have hfields := readFields_stringify f fields (fuel + 1) rest (by omega)
    have hfield := @readField_stringify _ _ name _ _ _ _ hvalue
    rw [stringifyFields, List.cons_append, List.append_assoc, List.cons_append, List.append_assoc,
      readFields]
    simp only [List.dropWhile_cons, show isSpaceUnit unitComma = false by decide,
      Bool.false_eq_true, if_false, if_true, show ¬unitComma = unitCloseBrace by decide, hfield,
      hfields, Option.bind_eq_bind, Option.bind_some]
    rfl

end

/-- **Parsing undoes writing**, but for the numbers that do not survive. -/
theorem parse_stringify (f : NumberFormat N) (v : JsValue N) :
    parse f (stringify f v) = some (reread f v) := by
  have h := readValue_stringify f v ((stringify f v).length + 1) [] (Nat.le_succ _) endsNumeral_nil
  rw [List.append_nil] at h
  rw [parse, h]
  rfl

mutual

/-- **A value is read back unchanged** if and only if its numbers are. -/
theorem reread_eq_self_iff (f : NumberFormat N) : ∀ v : JsValue N,
    reread f v = v ↔ NumbersSurvive f v
  | .null => iff_of_true rfl trivial
  | .bool _ => iff_of_true rfl trivial
  | .str _ => iff_of_true rfl trivial
  | .num n => by
    rw [reread, NumbersSurvive, NumberFormat.Survives]
    cases (f.write n).bind f.read with
    | none => exact iff_of_false (fun h => by cases h) (fun h => by cases h)
    | some m =>
      rw [Option.elim_some]
      exact ⟨fun h => by rw [JsValue.num.inj h], fun h => by rw [Option.some.inj h]⟩
  | .arr elems => by
    rw [reread, NumbersSurvive, ← rereadElems_eq_self_iff f elems]
    exact ⟨JsValue.arr.inj, congrArg JsValue.arr⟩
  | .obj fields => by
    rw [reread, NumbersSurvive, ← rereadFields_eq_self_iff f fields]
    exact ⟨JsValue.obj.inj, congrArg JsValue.obj⟩

theorem rereadElems_eq_self_iff (f : NumberFormat N) : ∀ elems : List (JsValue N),
    rereadElems f elems = elems ↔ ElemsSurvive f elems
  | [] => iff_of_true rfl trivial
  | elem :: elems => by
    rw [rereadElems, ElemsSurvive, List.cons_eq_cons, reread_eq_self_iff f elem,
      rereadElems_eq_self_iff f elems]

theorem rereadFields_eq_self_iff (f : NumberFormat N) : ∀ fields : List (JsText × JsValue N),
    rereadFields f fields = fields ↔ FieldsSurvive f fields
  | [] => iff_of_true rfl trivial
  | (name, value) :: fields => by
    rw [rereadFields, FieldsSurvive, List.cons_eq_cons, Prod.mk.injEq, reread_eq_self_iff f value,
      rereadFields_eq_self_iff f fields, and_iff_right rfl]

end

/-! ### The text in a column -/

theorem wellFormed_quoteUnit (u : UInt16) : WellFormed (quoteUnit u) := by
  have hhex : ∀ d : Fin 16, isSurrogate (hexUnit d) = false := by decide
  rw [quoteUnit]
  split_ifs with h1 h2 h3 h4 h5 h6 h7 h8
  all_goals try exact WellFormed.of_units (by decide)
  · have hlt : u.toNat < 65536 := u.toNat_lt
    refine WellFormed.of_units fun v hv => ?_
    simp only [unicodeEscape, List.mem_cons, List.not_mem_nil, or_false] at hv
    rcases hv with rfl | rfl | rfl | rfl | rfl | rfl
    · decide
    · decide
    · exact hhex ⟨u.toNat / 4096, by omega⟩
    · exact hhex ⟨u.toNat / 256 % 16, by omega⟩
    · exact hhex ⟨u.toNat / 16 % 16, by omega⟩
    · exact hhex ⟨u.toNat % 16, by omega⟩
  · refine WellFormed.of_units fun v hv => ?_
    obtain rfl := List.mem_singleton.mp hv
    exact Bool.eq_false_iff.mpr fun h => h8 (Or.inr h)

/-- An unpaired surrogate is written as an escape. -/
theorem wellFormed_quoteUnits (s : JsText) : WellFormed (quoteUnits s) := by
  fun_induction quoteUnits s with
  | case1 => exact .nil
  | case2 u => exact wellFormed_quoteUnit u
  | case3 u v s h ih =>
    rw [Bool.and_eq_true] at h
    exact .pair h.1 h.2 ih
  | case4 u v s _ ih => exact (wellFormed_quoteUnit u).append ih

theorem wellFormed_quote (s : JsText) : WellFormed (quote s) :=
  .unit (by decide) ((wellFormed_quoteUnits s).append (.unit (by decide) .nil))

mutual

/-- **A text column keeps what `JSON.stringify` wrote.** -/
theorem wellFormed_stringify (f : NumberFormat N) : ∀ v : JsValue N, WellFormed (stringify f v)
  | .null => show WellFormed (utf16 "null") from .of_units (by decide)
  | .bool true => show WellFormed (utf16 "true") from .of_units (by decide)
  | .bool false => show WellFormed (utf16 "false") from .of_units (by decide)
  | .num n => by
    rw [stringify]
    cases ht : f.write n with
    | none => exact WellFormed.of_units (by decide)
    | some t => exact WellFormed.of_units fun u hu =>
        (not_number_dispatch ((f.numeral n t ht).2 u hu)).2.2.2.2.2.2.2.2
  | .str s => wellFormed_quote s
  | .arr [] => show WellFormed [unitOpenBracket, unitCloseBracket] from .of_units (by decide)
  | .arr (elem :: elems) =>
    .unit (by decide) ((wellFormed_stringify f elem).append (wellFormed_stringifyElems f elems))
  | .obj [] => show WellFormed [unitOpenBrace, unitCloseBrace] from .of_units (by decide)
  | .obj ((name, value) :: fields) =>
    .unit (by decide) ((wellFormed_quote name).append (.unit (by decide)
      ((wellFormed_stringify f value).append (wellFormed_stringifyFields f fields))))

theorem wellFormed_stringifyElems (f : NumberFormat N) : ∀ elems : List (JsValue N),
    WellFormed (stringifyElems f elems)
  | [] => show WellFormed [unitCloseBracket] from .of_units (by decide)
  | elem :: elems =>
    .unit (by decide) ((wellFormed_stringify f elem).append (wellFormed_stringifyElems f elems))

theorem wellFormed_stringifyFields (f : NumberFormat N) : ∀ fields : List (JsText × JsValue N),
    WellFormed (stringifyFields f fields)
  | [] => show WellFormed [unitCloseBrace] from .of_units (by decide)
  | (name, value) :: fields =>
    .unit (by decide) ((wellFormed_quote name).append (.unit (by decide)
      ((wellFormed_stringify f value).append (wellFormed_stringifyFields f fields))))

end

/-! ### The text in a line -/

/-- No unit is a control character; in particular the text is one line. -/
def Printable (s : JsText) : Prop := ∀ u ∈ s, 32 ≤ u

theorem Printable.append {s t : JsText} (hs : Printable s) (ht : Printable t) :
    Printable (s ++ t) := by
  intro u hu
  rcases List.mem_append.mp hu with h | h
  · exact hs u h
  · exact ht u h

theorem Printable.cons {u : UInt16} {s : JsText} (hu : 32 ≤ u) (hs : Printable s) :
    Printable (u :: s) := by
  intro v hv
  rcases List.mem_cons.mp hv with rfl | h
  · exact hu
  · exact hs v h

theorem printable_of_all {s : JsText} (h : s.all (32 ≤ ·) = true) : Printable s := by
  intro u hu
  exact of_decide_eq_true (List.all_eq_true.mp h u hu)

theorem printable_quoteUnit (u : UInt16) : Printable (quoteUnit u) := by
  have hhex : ∀ d : Fin 16, (32 : UInt16) ≤ hexUnit d := by decide
  rw [quoteUnit]
  split_ifs with h1 h2 h3 h4 h5 h6 h7 h8
  all_goals try exact printable_of_all (by decide)
  · have hlt : u.toNat < 65536 := u.toNat_lt
    intro v hv
    simp only [unicodeEscape, List.mem_cons, List.not_mem_nil, or_false] at hv
    rcases hv with rfl | rfl | rfl | rfl | rfl | rfl
    · decide
    · decide
    · exact hhex ⟨u.toNat / 4096, by omega⟩
    · exact hhex ⟨u.toNat / 256 % 16, by omega⟩
    · exact hhex ⟨u.toNat / 16 % 16, by omega⟩
    · exact hhex ⟨u.toNat % 16, by omega⟩
  · intro v hv
    obtain rfl := List.mem_singleton.mp hv
    exact UInt16.not_lt.mp fun h => h8 (Or.inl h)

theorem printable_quoteUnits (s : JsText) : Printable (quoteUnits s) := by
  fun_induction quoteUnits s with
  | case1 => exact printable_of_all rfl
  | case2 u => exact printable_quoteUnit u
  | case3 u v s h ih =>
    rw [Bool.and_eq_true] at h
    have hu : (32 : UInt16) ≤ u := UInt16.not_lt.mp (plain_of_isHighSurrogate h.1).2.2
    have hv : (32 : UInt16) ≤ v := UInt16.not_lt.mp (plain_of_isLowSurrogate h.2).2.2
    exact .cons hu (.cons hv ih)
  | case4 u v s _ ih => exact (printable_quoteUnit u).append ih

theorem printable_quote (s : JsText) : Printable (quote s) :=
  .cons (by decide) ((printable_quoteUnits s).append (printable_of_all (by decide)))

mutual

/-- **`JSON.stringify` writes no line break**, and no other control
character. -/
theorem printable_stringify (f : NumberFormat N) : ∀ v : JsValue N, Printable (stringify f v)
  | .null => show Printable (utf16 "null") from printable_of_all (by decide)
  | .bool true => show Printable (utf16 "true") from printable_of_all (by decide)
  | .bool false => show Printable (utf16 "false") from printable_of_all (by decide)
  | .num n => by
    rw [stringify]
    cases ht : f.write n with
    | none => exact printable_of_all (by decide)
    | some t =>
      intro u hu
      have hnumeral := (f.numeral n t ht).2 u hu
      have hcontrol : u < 32 → isNumberUnit u = false := by
        have aux : ∀ d : Fin 32, isNumberUnit (UInt16.ofNat d) = false := by decide
        intro h
        have hd := aux ⟨u.toNat, UInt16.lt_iff_toNat_lt.mp h⟩
        rwa [UInt16.ofNat_toNat] at hd
      refine UInt16.not_lt.mp fun h => ?_
      rw [hcontrol h] at hnumeral
      exact absurd hnumeral Bool.false_ne_true
  | .str s => printable_quote s
  | .arr [] => show Printable [unitOpenBracket, unitCloseBracket] from printable_of_all (by decide)
  | .arr (elem :: elems) =>
    .cons (by decide) ((printable_stringify f elem).append (printable_stringifyElems f elems))
  | .obj [] => show Printable [unitOpenBrace, unitCloseBrace] from printable_of_all (by decide)
  | .obj ((name, value) :: fields) =>
    .cons (by decide) ((printable_quote name).append (.cons (by decide)
      ((printable_stringify f value).append (printable_stringifyFields f fields))))

theorem printable_stringifyElems (f : NumberFormat N) : ∀ elems : List (JsValue N),
    Printable (stringifyElems f elems)
  | [] => show Printable [unitCloseBracket] from printable_of_all (by decide)
  | elem :: elems =>
    .cons (by decide) ((printable_stringify f elem).append (printable_stringifyElems f elems))

theorem printable_stringifyFields (f : NumberFormat N) : ∀ fields : List (JsText × JsValue N),
    Printable (stringifyFields f fields)
  | [] => show Printable [unitCloseBrace] from printable_of_all (by decide)
  | (name, value) :: fields =>
    .cons (by decide) ((printable_quote name).append (.cons (by decide)
      ((printable_stringify f value).append (printable_stringifyFields f fields))))

end

end SymphonyBoard
