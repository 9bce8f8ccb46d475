import SymphonyBoard.Common.Digits
/-!
# Percent-encoded queries

A text travels in a query as UTF-8 bytes, each byte that could be taken for
a delimiter spelled `%XX`. `encodeURIComponent` writes one value so, and
`formParse` reads a whole `name=value&…` query the way a browser does: it
splits the bytes first and decodes after, so an escaped delimiter splits
nothing. The decoders take any bytes. `formParse_formQuery` says that what
was written comes back.
-/

namespace SymphonyBoard

/-! ## UTF-8 -/

/-- A character read in part: the bytes still needed, the bounds of the next
one, and the bits so far. -/
structure Utf8Partial where
  needed : ℕ
  lower : ℕ
  upper : ℕ
  point : ℕ

/-- A byte between two characters. -/
def utf8First (b : ℕ) : List Char × Option Utf8Partial :=
  if b ≤ 0x7f then ([Char.ofNat b], none)
  else if 0xc2 ≤ b ∧ b ≤ 0xdf then ([], some ⟨1, 0x80, 0xbf, b % 32⟩)
  else if 0xe0 ≤ b ∧ b ≤ 0xef then
    ([], some ⟨2, if b = 0xe0 then 0xa0 else 0x80, if b = 0xed then 0x9f else 0xbf, b % 16⟩)
  else if 0xf0 ≤ b ∧ b ≤ 0xf4 then
    ([], some ⟨3, if b = 0xf0 then 0x90 else 0x80, if b = 0xf4 then 0x8f else 0xbf, b % 8⟩)
  else (['\ufffd'], none)

/-- A byte in the middle of a character. One that cannot continue it stands
for a malformed character and is read again. -/
def utf8Next (p : Utf8Partial) (b : ℕ) : List Char × Option Utf8Partial :=
  if p.lower ≤ b ∧ b ≤ p.upper then
    let point := p.point * 64 + b % 64
    if p.needed = 1 then ([Char.ofNat point], none)
    else ([], some ⟨p.needed - 1, 0x80, 0xbf, point⟩)
  else ('\ufffd' :: (utf8First b).1, (utf8First b).2)

/-- One byte of the decoder. -/
def utf8Step : Option Utf8Partial → ℕ → List Char × Option Utf8Partial
  | none, b => utf8First b
  | some p, b => utf8Next p b

/-- The characters of a byte sequence, malformed ones replaced. -/
def utf8Decode : Option Utf8Partial → List UInt8 → List Char
  | none, [] => []
  | some _, [] => ['\ufffd']
  | s, b :: bs => (utf8Step s b.toNat).1 ++ utf8Decode (utf8Step s b.toNat).2 bs

/-- The bytes of a text. -/
def utf8Encode (cs : List Char) : List UInt8 := cs.flatMap String.utf8EncodeChar

@[simp] theorem utf8Encode_nil : utf8Encode [] = [] := rfl

@[simp] theorem utf8Encode_append (cs ds : List Char) :
    utf8Encode (cs ++ ds) = utf8Encode cs ++ utf8Encode ds := List.flatMap_append

theorem utf8Encode_cons (c : Char) (cs : List Char) :
    utf8Encode (c :: cs) = String.utf8EncodeChar c ++ utf8Encode cs := List.flatMap_cons

theorem utf8EncodeChar_ascii {c : Char} (h : c.toNat ≤ 0x7f) :
    String.utf8EncodeChar c = [UInt8.ofNat c.toNat] := if_pos h

theorem utf8Decode_cons (s : Option Utf8Partial) (b : UInt8) (bs : List UInt8) :
    utf8Decode s (b :: bs) = (utf8Step s b.toNat).1 ++ utf8Decode (utf8Step s b.toNat).2 bs := by
  cases s <;> rfl

/-- A byte that continues a character, and does not end it. -/
theorem utf8Next_more {p : Utf8Partial} {b : ℕ} (hlower : p.lower ≤ b) (hupper : b ≤ p.upper)
    (hneeded : p.needed ≠ 1) :
    utf8Next p b = ([], some ⟨p.needed - 1, 0x80, 0xbf, p.point * 64 + b % 64⟩) := by
  rw [utf8Next, if_pos ⟨hlower, hupper⟩]
  exact if_neg hneeded

/-- A byte that ends a character. -/
theorem utf8Next_last {p : Utf8Partial} {b : ℕ} (hlower : p.lower ≤ b) (hupper : b ≤ p.upper)
    (hneeded : p.needed = 1) : utf8Next p b = ([Char.ofNat (p.point * 64 + b % 64)], none) := by
  rw [utf8Next, if_pos ⟨hlower, hupper⟩]
  exact if_pos hneeded

/-- What is left of a character after its first byte, when one more follows:
the bytes to come are all of them tails. -/
theorem utf8Decode_tail (point x : ℕ) (bs : List UInt8) (hx : x < 64) :
    utf8Decode (some ⟨1, 0x80, 0xbf, point⟩) (UInt8.ofNat (x + 0x80) :: bs) =
      Char.ofNat (point * 64 + x) :: utf8Decode none bs := by
  have hbyte : (UInt8.ofNat (x + 0x80)).toNat = x + 0x80 := by
    rw [UInt8.toNat_ofNat']
    omega
  have hlow : (x + 0x80) % 64 = x := by omega
  rw [utf8Decode_cons, hbyte, utf8Step,
    utf8Next_last (show 0x80 ≤ x + 0x80 by omega) (show x + 0x80 ≤ 0xbf by omega) rfl, hlow]
  rfl

/-- One of several tails, under the bounds its first byte set. -/
theorem utf8Decode_more {needed lower upper point x : ℕ} (bs : List UInt8)
    (hlower : lower ≤ x + 0x80) (hupper : x + 0x80 ≤ upper) (hx : x < 64) :
    utf8Decode (some ⟨needed + 2, lower, upper, point⟩) (UInt8.ofNat (x + 0x80) :: bs) =
      utf8Decode (some ⟨needed + 1, 0x80, 0xbf, point * 64 + x⟩) bs := by
  have hbyte : (UInt8.ofNat (x + 0x80)).toNat = x + 0x80 := by
    rw [UInt8.toNat_ofNat']
    omega
  have hlow : (x + 0x80) % 64 = x := by omega
  rw [utf8Decode_cons, hbyte, utf8Step,
    utf8Next_more hlower hupper (show needed + 2 ≠ 1 by omega), hlow]
  rfl

/-- A character's own bytes give it back, whatever follows. -/
theorem utf8Decode_encodeChar (c : Char) (bs : List UInt8) :
    utf8Decode none (String.utf8EncodeChar c ++ bs) = c :: utf8Decode none bs := by
  have hvalid : c.val.toNat < 0xd800 ∨ 0xdfff < c.val.toNat ∧ c.val.toNat < 0x110000 := c.valid
  have hchar : Char.ofNat c.val.toNat = c := Char.ofNat_toNat c
  unfold String.utf8EncodeChar
  generalize c.val.toNat = v at hvalid hchar
  have hbyte : ∀ n < 256, (UInt8.ofNat n).toNat = n := fun n hn => by
    rw [UInt8.toNat_ofNat']
    exact Nat.mod_eq_of_lt hn
  dsimp only
  split
  · -- one byte
    have hv : v ≤ 0x7f := by assumption
    have hstep : utf8Step none (UInt8.ofNat v).toNat = ([Char.ofNat v], none) := by
      rw [hbyte v (by omega)]
      exact if_pos hv
    rw [List.cons_append, List.nil_append, utf8Decode_cons, hstep, hchar]
    rfl
  split
  · -- two bytes
    have hstep : utf8Step none (UInt8.ofNat (v / 64 % 0x20 + 0xc0)).toNat =
        ([], some ⟨1, 0x80, 0xbf, v / 64⟩) := by
      rw [hbyte _ (by omega), utf8Step, utf8First, if_neg (by omega), if_pos (by omega)]
      simp only [Prod.mk.injEq, Option.some.injEq, Utf8Partial.mk.injEq, true_and]
      omega
    have hpoint : v / 64 * 64 + v % 64 = v := by omega
    simp only [List.cons_append, List.nil_append]
    rw [utf8Decode_cons, hstep]
    show utf8Decode (some ⟨1, 0x80, 0xbf, v / 64⟩) _ = _
    rw [utf8Decode_tail _ _ _ (by omega), hpoint, hchar]
  split
  · -- three bytes, the second away from the surrogates
    have hstep : utf8Step none (UInt8.ofNat (v / 4096 % 0x10 + 0xe0)).toNat =
        ([], some ⟨0 + 2, if v / 4096 + 0xe0 = 0xe0 then 0xa0 else 0x80,
          if v / 4096 + 0xe0 = 0xed then 0x9f else 0xbf, v / 4096⟩) := by
      have hfirst : v / 4096 % 0x10 = v / 4096 := by omega
      have hpoint : (v / 4096 + 0xe0) % 16 = v / 4096 := by omega
      rw [hfirst, hbyte _ (by omega), utf8Step, utf8First, if_neg (by omega), if_neg (by omega),
        if_pos (by omega), hpoint]
    have hpoint : (v / 4096 * 64 + v / 64 % 0x40) * 64 + v % 64 = v := by omega
    simp only [List.cons_append, List.nil_append]
    rw [utf8Decode_cons, hstep]
    show utf8Decode (some ⟨0 + 2, _, _, v / 4096⟩) _ = _
    rw [utf8Decode_more _ (by split <;> omega) (by split <;> omega) (by omega),
      utf8Decode_tail _ _ _ (by omega), hpoint, hchar]
  · -- four bytes
    have hstep : utf8Step none (UInt8.ofNat (v / 262144 % 0x08 + 0xf0)).toNat =
        ([], some ⟨1 + 2, if v / 262144 + 0xf0 = 0xf0 then 0x90 else 0x80,
          if v / 262144 + 0xf0 = 0xf4 then 0x8f else 0xbf, v / 262144⟩) := by
      have hfirst : v / 262144 % 0x08 = v / 262144 := by omega
      have hpoint : (v / 262144 + 0xf0) % 8 = v / 262144 := by omega
      rw [hfirst, hbyte _ (by omega), utf8Step, utf8First, if_neg (by omega), if_neg (by omega),
        if_neg (by omega), if_pos (by omega), hpoint]
    have hpoint : ((v / 262144 * 64 + v / 4096 % 0x40) * 64 + v / 64 % 0x40) * 64 + v % 64 = v := by
      omega
    simp only [List.cons_append, List.nil_append]
    rw [utf8Decode_cons, hstep]
    show utf8Decode (some ⟨1 + 2, _, _, v / 262144⟩) _ = _
    rw [utf8Decode_more _ (by split <;> omega) (by split <;> omega) (by omega),
      utf8Decode_more _ (by omega) (by omega) (by omega), utf8Decode_tail _ _ _ (by omega),
      hpoint, hchar]

theorem utf8Decode_utf8Encode (cs : List Char) : utf8Decode none (utf8Encode cs) = cs := by
  induction cs with
  | nil => rfl
  | cons c cs ih => rw [utf8Encode_cons, utf8Decode_encodeChar, ih]

/-! ## Percent-encoding -/

/-- The characters `encodeURIComponent` leaves alone. -/
def isUnescaped (c : Char) : Bool := c.isAlphanum || "-_.!~*'()".toList.contains c

/-- A digit of a percent code; capital letters. -/
def hexDigit (n : Nat) : Char := "0123456789ABCDEF".toList.getD n '0'

/-- The code of a byte. -/
def percentByte (b : UInt8) : List Char := ['%', hexDigit (b.toNat / 16), hexDigit (b.toNat % 16)]

/-- `encodeURIComponent` -/
def encodeURIComponent (s : String) : String :=
  String.ofList (s.toList.flatMap fun c =>
    if isUnescaped c then [c] else (String.utf8EncodeChar c).flatMap percentByte)

/-- A byte that is a hexadecimal digit, of either case. -/
def hexValue (b : UInt8) : Option ℕ :=
  if 48 ≤ b.toNat ∧ b.toNat ≤ 57 then some (b.toNat - 48)
  else if 65 ≤ b.toNat ∧ b.toNat ≤ 70 then some (b.toNat - 55)
  else if 97 ≤ b.toNat ∧ b.toNat ≤ 102 then some (b.toNat - 87)
  else none

/-- The byte three bytes spell, if they are an escape. -/
def escapedByte (b h l : UInt8) : Option UInt8 :=
  if b = 37 then (hexValue h).bind fun x => (hexValue l).map fun y => UInt8.ofNat (16 * x + y)
  else none

/-- Escapes read, everything else kept, a `%` that starts no escape too. -/
def percentDecode : List UInt8 → List UInt8
  | b :: h :: l :: bs =>
    match escapedByte b h l with
    | some byte => byte :: percentDecode bs
    | none => b :: percentDecode (h :: l :: bs)
  | bs => bs

/-- One name or value of a query: a `+` is a space. -/
def formDecode (bs : List UInt8) : String :=
  String.ofList (utf8Decode none (percentDecode (bs.map fun b => if b = 43 then 32 else b)))

/-- A piece of a query: its name ends at the first `=`. -/
def formPair (bs : List UInt8) : String × String :=
  (formDecode (bs.takeWhile (· ≠ 61)), formDecode ((bs.dropWhile (· ≠ 61)).drop 1))

/-- `new URLSearchParams(query)`. -/
def formParse (query : String) : List (String × String) :=
  let init := match query.toList with
    | '?' :: cs => cs
    | cs => cs
  (((utf8Encode init).splitOn 38).filter (· ≠ [])).map formPair

/-- Named values, written as a query. -/
def formQuery (pairs : List (String × String)) : String :=
  "&".intercalate (pairs.map fun p => p.1 ++ "=" ++ encodeURIComponent p.2)

/-! ## What is written is read back -/

/-- One character of a written value. -/
def escapeChar (c : Char) : List Char :=
  if isUnescaped c then [c] else (String.utf8EncodeChar c).flatMap percentByte

theorem toList_encodeURIComponent (s : String) :
    (encodeURIComponent s).toList = s.toList.flatMap escapeChar := String.toList_ofList

theorem hexDigit_ascii : ∀ n < 16, (hexDigit n).toNat ≤ 0x7f := by decide

theorem hexValue_hexDigit : ∀ n < 16, hexValue (UInt8.ofNat (hexDigit n).toNat) = some n := by
  decide

/-- A digit is none of `&`, `+` and `=`. -/
theorem hexDigit_plain : ∀ n < 16,
    (hexDigit n).toNat ≠ 38 ∧ (hexDigit n).toNat ≠ 43 ∧ (hexDigit n).toNat ≠ 61 := by decide

/-- The characters left alone are ASCII, and no delimiter. -/
theorem ascii_of_isUnescaped {c : Char} (h : isUnescaped c = true) :
    c.toNat ≤ 0x7f ∧ c.toNat ≠ 37 ∧ c.toNat ≠ 38 ∧ c.toNat ≠ 43 ∧ c.toNat ≠ 61 := by
  rw [isUnescaped, Bool.or_eq_true] at h
  rcases h with h | h
  · have hrange := toNat_of_isAlphanum h
    omega
  · have hmem : c ∈ ['-', '_', '.', '!', '~', '*', '\'', '(', ')'] := List.contains_iff_mem.mp h
    have hall : ['-', '_', '.', '!', '~', '*', '\'', '(', ')'].all (fun d => d.toNat ≤ 0x7f ∧
        d.toNat ≠ 37 ∧ d.toNat ≠ 38 ∧ d.toNat ≠ 43 ∧ d.toNat ≠ 61) = true := by decide
    exact of_decide_eq_true (List.all_eq_true.mp hall c hmem)

theorem utf8Encode_percentByte (b : UInt8) :
    utf8Encode (percentByte b) = [37, UInt8.ofNat (hexDigit (b.toNat / 16)).toNat,
      UInt8.ofNat (hexDigit (b.toNat % 16)).toNat] := by
  have hb : b.toNat < 256 := b.toNat_lt
  rw [percentByte, utf8Encode_cons, utf8Encode_cons, utf8Encode_cons,
    utf8EncodeChar_ascii (hexDigit_ascii _ (by omega)),
    utf8EncodeChar_ascii (hexDigit_ascii _ (by omega))]
  rfl

theorem percentDecode_percentByte (b : UInt8) (bs : List UInt8) :
    percentDecode (utf8Encode (percentByte b) ++ bs) = b :: percentDecode bs := by
  have hb : b.toNat < 256 := b.toNat_lt
  have hparts : 16 * (b.toNat / 16) + b.toNat % 16 = b.toNat := by omega
  have hbyte : escapedByte 37 (UInt8.ofNat (hexDigit (b.toNat / 16)).toNat)
      (UInt8.ofNat (hexDigit (b.toNat % 16)).toNat) = some b := by
    rw [escapedByte, if_pos rfl, hexValue_hexDigit _ (by omega), hexValue_hexDigit _ (by omega),
      Option.bind_some, Option.map_some, hparts, UInt8.ofNat_toNat]
  rw [utf8Encode_percentByte]
  simp only [List.cons_append, List.nil_append, percentDecode, hbyte]

theorem percentDecode_percentBytes (bytes bs : List UInt8) :
    percentDecode (utf8Encode (bytes.flatMap percentByte) ++ bs) = bytes ++ percentDecode bs := by
  induction bytes with
  | nil => rfl
  | cons b bytes ih =>
    rw [List.flatMap_cons, utf8Encode_append, List.append_assoc, percentDecode_percentByte, ih,
      List.cons_append]

/-- A byte that starts no escape is kept. -/
theorem percentDecode_cons {b : UInt8} (hb : b ≠ 37) (bs : List UInt8) :
    percentDecode (b :: bs) = b :: percentDecode bs := by
  match bs with
  | [] => rfl
  | [_] => rfl
  | h :: l :: bs =>
    have hbyte : escapedByte b h l = none := if_neg hb
    simp only [percentDecode, hbyte]

theorem percentDecode_escapeChar (c : Char) (bs : List UInt8) :
    percentDecode (utf8Encode (escapeChar c) ++ bs) =
      String.utf8EncodeChar c ++ percentDecode bs := by
  by_cases hc : isUnescaped c
  · obtain ⟨hascii, hpercent, -⟩ := ascii_of_isUnescaped hc
    have hne : UInt8.ofNat c.toNat ≠ 37 := by
      intro heq
      have hnat := congrArg UInt8.toNat heq
      rw [UInt8.toNat_ofNat', Nat.mod_eq_of_lt (by omega)] at hnat
      exact hpercent hnat
    rw [escapeChar, if_pos hc, utf8Encode_cons, utf8EncodeChar_ascii hascii]
    exact percentDecode_cons hne bs
  · rw [escapeChar, if_neg hc, percentDecode_percentBytes]

theorem percentDecode_escapeChars (cs : List Char) :
    percentDecode (utf8Encode (cs.flatMap escapeChar)) = utf8Encode cs := by
  induction cs with
  | nil => rfl
  | cons c cs ih =>
    rw [List.flatMap_cons, utf8Encode_append, percentDecode_escapeChar, ih, utf8Encode_cons]

/-- A byte of a written value is none of `&`, `+` and `=`. -/
structure PlainByte (b : UInt8) : Prop where
  ne_ampersand : b ≠ 38
  ne_plus : b ≠ 43
  ne_equals : b ≠ 61

theorem plainByte_ofNat {n : ℕ} (hn : n ≤ 0x7f) (h : n ≠ 38 ∧ n ≠ 43 ∧ n ≠ 61) :
    PlainByte (UInt8.ofNat n) := by
  have hnat : (UInt8.ofNat n).toNat = n := by
    rw [UInt8.toNat_ofNat']
    omega
  have hne : ∀ m : UInt8, n ≠ m.toNat → UInt8.ofNat n ≠ m := fun m hm heq =>
    hm (hnat.symm.trans (congrArg UInt8.toNat heq))
  exact ⟨hne 38 h.1, hne 43 h.2.1, hne 61 h.2.2⟩

theorem plainByte_of_mem_escapeChar {c : Char} {b : UInt8} (h : b ∈ utf8Encode (escapeChar c)) :
    PlainByte b := by
  by_cases hc : isUnescaped c
  · obtain ⟨hascii, -, hplain⟩ := ascii_of_isUnescaped hc
    rw [escapeChar, if_pos hc, utf8Encode_cons, utf8EncodeChar_ascii hascii, utf8Encode_nil,
      List.append_nil, List.mem_singleton] at h
    subst h
    exact plainByte_ofNat hascii hplain
  · rw [escapeChar, if_neg hc] at h
    obtain ⟨d, hd, hb⟩ := List.mem_flatMap.mp h
    obtain ⟨byte, -, hd⟩ := List.mem_flatMap.mp hd
    have hbyte : b ∈ utf8Encode (percentByte byte) := List.mem_flatMap.mpr ⟨d, hd, hb⟩
    have hlt : byte.toNat < 256 := byte.toNat_lt
    rw [utf8Encode_percentByte] at hbyte
    rcases List.mem_cons.mp hbyte with rfl | hbyte
    · exact ⟨by decide, by decide, by decide⟩
    rcases List.mem_cons.mp hbyte with rfl | hbyte
    · exact plainByte_ofNat (hexDigit_ascii _ (by omega)) (hexDigit_plain _ (by omega))
    · rw [List.mem_singleton.mp hbyte]
      exact plainByte_ofNat (hexDigit_ascii _ (by omega)) (hexDigit_plain _ (by omega))

theorem plainByte_of_mem_encode {s : String} {b : UInt8}
    (h : b ∈ utf8Encode (encodeURIComponent s).toList) : PlainByte b := by
  rw [toList_encodeURIComponent] at h
  obtain ⟨d, hd, hb⟩ := List.mem_flatMap.mp h
  obtain ⟨c, -, hd⟩ := List.mem_flatMap.mp hd
  exact plainByte_of_mem_escapeChar (List.mem_flatMap.mpr ⟨d, hd, hb⟩)

/-- A written value is read back. -/
theorem formDecode_encode (s : String) :
    formDecode (utf8Encode (encodeURIComponent s).toList) = s := by
  have hplus : (utf8Encode (encodeURIComponent s).toList).map (fun b => if b = 43 then 32 else b) =
      utf8Encode (encodeURIComponent s).toList :=
    (List.map_congr_left fun b hb => if_neg (plainByte_of_mem_encode hb).ne_plus).trans
      (List.map_id' _)
  rw [formDecode, hplus, toList_encodeURIComponent, percentDecode_escapeChars,
    utf8Decode_utf8Encode, String.ofList_toList]

theorem encodeURIComponent_eq_self {s : String} (h : ∀ c ∈ s.toList, isUnescaped c = true) :
    encodeURIComponent s = s := by
  have hchars : s.toList.flatMap escapeChar = s.toList := by
    generalize s.toList = cs at h
    induction cs with
    | nil => rfl
    | cons c cs ih =>
      rw [List.flatMap_cons, escapeChar, if_pos (h c List.mem_cons_self),
        ih fun d hd => h d (List.mem_cons_of_mem c hd)]
      rfl
  rw [← String.toList_inj, toList_encodeURIComponent, hchars]

/-- A name a query can carry as it is. -/
structure IsFormName (name : String) : Prop where
  unescaped : ∀ c ∈ name.toList, isUnescaped c = true
  ne_empty : name ≠ ""

section Pairs

variable {p : String × String}

/-- The bytes of a written pair. -/
theorem utf8Encode_pair (hname : IsFormName p.1) :
    utf8Encode (p.1 ++ "=" ++ encodeURIComponent p.2).toList =
      utf8Encode (encodeURIComponent p.1).toList ++
        61 :: utf8Encode (encodeURIComponent p.2).toList := by
  have hequals : utf8Encode "=".toList = [61] := by decide
  rw [String.toList_append, String.toList_append, utf8Encode_append, utf8Encode_append, hequals,
    encodeURIComponent_eq_self hname.unescaped, List.append_assoc, List.singleton_append]

theorem formPair_pair (hname : IsFormName p.1) :
    formPair (utf8Encode (p.1 ++ "=" ++ encodeURIComponent p.2).toList) = p := by
  have hkeep : ∀ b ∈ utf8Encode (encodeURIComponent p.1).toList, decide (b ≠ 61) = true :=
    fun b hb => decide_eq_true (plainByte_of_mem_encode hb).ne_equals
  rw [utf8Encode_pair hname, formPair, List.takeWhile_append_of_pos hkeep,
    List.dropWhile_append_of_pos hkeep]
  simp only [ne_eq, not_true_eq_false, decide_false, Bool.false_eq_true, not_false_eq_true,
    List.takeWhile_cons_of_neg, List.dropWhile_cons_of_neg, List.append_nil, List.drop_one,
    List.tail_cons, formDecode_encode]

theorem ampersand_notMem_pair (hname : IsFormName p.1) :
    (38 : UInt8) ∉ utf8Encode (p.1 ++ "=" ++ encodeURIComponent p.2).toList := by
  rw [utf8Encode_pair hname]
  intro hmem
  rcases List.mem_append.mp hmem with h | h
  · exact (plainByte_of_mem_encode h).ne_ampersand rfl
  · rcases List.mem_cons.mp h with h | h
    · exact absurd h (by decide)
    · exact (plainByte_of_mem_encode h).ne_ampersand rfl

theorem pair_ne_nil (hname : IsFormName p.1) :
    utf8Encode (p.1 ++ "=" ++ encodeURIComponent p.2).toList ≠ [] := by
  rw [utf8Encode_pair hname]
  exact fun h => List.cons_ne_nil _ _ (List.append_eq_nil_iff.mp h).2

end Pairs

theorem utf8Encode_intercalate (sep : List Char) (texts : List (List Char)) :
    utf8Encode (sep.intercalate texts) = (utf8Encode sep).intercalate (texts.map utf8Encode) := by
  match texts with
  | [] => rfl
  | [text] => simp only [List.intercalate_singleton, List.map_cons, List.map_nil]
  | a :: b :: texts =>
    rw [List.intercalate_cons_cons, utf8Encode_append, utf8Encode_append,
      utf8Encode_intercalate sep (b :: texts)]
    exact List.intercalate_cons_cons.symm

/-- A query starts with its first name, so a leading `?` is never its own. -/
theorem formQuery_ne_question {pairs : List (String × String)}
    (hnames : ∀ p ∈ pairs, IsFormName p.1) (cs : List Char) :
    (formQuery pairs).toList ≠ '?' :: cs := by
  intro heq
  rw [formQuery, String.toList_intercalate] at heq
  match pairs with
  | [] => exact absurd heq (by simp)
  | p :: pairs =>
    obtain ⟨hname, hne⟩ := hnames p List.mem_cons_self
    have hstart : p.1.toList <+: '?' :: cs := by
      rw [← heq, List.map_cons, List.map_cons, String.toList_append, String.toList_append,
        List.append_assoc]
      cases pairs with
      | nil =>
        rw [List.map_nil, List.map_nil, List.intercalate_singleton]
        exact List.prefix_append _ _
      | cons q pairs =>
        rw [List.map_cons, List.map_cons, List.intercalate_cons_cons, List.append_assoc,
          List.append_assoc]
        exact List.prefix_append _ _
    match hchars : p.1.toList with
    | [] => exact hne (String.toList_inj.mp hchars)
    | c :: rest =>
      rw [hchars] at hstart
      have hc : c = '?' := (List.cons_prefix_cons.mp hstart).1
      have hunescaped := hname c (by rw [hchars]; exact List.mem_cons_self)
      rw [hc] at hunescaped
      exact absurd hunescaped (by decide)

/-- **A query is read as it was written**: whatever the values hold, under
names that need no escape. -/
theorem formParse_formQuery {pairs : List (String × String)}
    (hnames : ∀ p ∈ pairs, IsFormName p.1) : formParse (formQuery pairs) = pairs := by
  have hbytes : utf8Encode (formQuery pairs).toList = [38].intercalate
      (pairs.map fun p => utf8Encode (p.1 ++ "=" ++ encodeURIComponent p.2).toList) := by
    rw [formQuery, String.toList_intercalate, utf8Encode_intercalate, List.map_map, List.map_map]
    rfl
  have hquestion : (match (formQuery pairs).toList with
      | '?' :: cs => cs
      | cs => cs) = (formQuery pairs).toList := by
    split
    · rename_i cs heq
      exact absurd heq (formQuery_ne_question hnames cs)
    · rfl
  rw [formParse]
  simp only [hquestion, hbytes]
  by_cases hpairs : pairs = []
  · subst hpairs
    rfl
  · have hne : (pairs.map fun p => utf8Encode (p.1 ++ "=" ++ encodeURIComponent p.2).toList) ≠ [] :=
      fun h => hpairs (List.map_eq_nil_iff.mp h)
    rw [List.splitOn_intercalate 38 _ hne]
    · rw [List.filter_eq_self.mpr, List.map_map]
      · refine (List.map_congr_left fun p hp => ?_).trans (List.map_id' _)
        exact formPair_pair (hnames p hp)
      · intro bytes hmem
        obtain ⟨p, hp, rfl⟩ := List.mem_map.mp hmem
        exact decide_eq_true (pair_ne_nil (hnames p hp))
    · intro bytes hmem
      obtain ⟨p, hp, rfl⟩ := List.mem_map.mp hmem
      exact ampersand_notMem_pair (hnames p hp)

end SymphonyBoard
