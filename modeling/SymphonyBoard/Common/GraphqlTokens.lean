import SymphonyBoard.Common.Digits
/-!
# Tokens of a GraphQL document

The lexical grammar, one character at a time: punctuators, spreads, names,
integers and strings, with what is ignored between them. A document whose
strings need an escape, and one with an empty or a block string, is not read
here. `lexFrom_append` reads a document piece by piece.
-/

namespace SymphonyBoard

/-- A token of the query language. -/
inductive GraphqlToken
  | punct (c : Char)
  | spread
  | name (text : List Char)
  | int (digits : List Char)
  | str (text : List Char)
deriving DecidableEq

/-- Where in a document a reader stands. -/
inductive GraphqlPlace
  | between
  | name (read : List Char)
  | int (read : List Char)
  | str (read : List Char)
  | dots (n : ℕ)
deriving DecidableEq

namespace GraphqlPlace

/-- What may stand between two tokens. -/
def isIgnored (c : Char) : Bool := c ∈ [' ', '\t', '\n', '\r', ',']

/-- A character that is a token by itself. -/
def isPunct (c : Char) : Bool :=
  c ∈ ['!', '$', '&', '(', ')', ':', '=', '@', '[', ']', '\x7b', '|', '\x7d']

/-- What a name starts with. -/
def isNameStart (c : Char) : Bool := c.isAlpha || c = '_'

/-- What a name goes on with. -/
def isNameRest (c : Char) : Bool := c.isAlphanum || c = '_'

/-- A character that no token before it takes. -/
def opening (c : Char) : Option (List GraphqlToken × GraphqlPlace) :=
  if isIgnored c then some ([], .between)
  else if isPunct c then some ([.punct c], .between)
  else if c = '\x22' then some ([], .str [])
  else if c = '.' then some ([], .dots 1)
  else if isNameStart c then some ([], .name [c])
  else if c.isDigit then some ([], .int [c])
  else none

/-- Behind a token that ends where the next character starts another. -/
def after (token : GraphqlToken) (c : Char) : Option (List GraphqlToken × GraphqlPlace) :=
  (opening c).map fun r => (token :: r.1, r.2)

/-- One character is read. -/
def step : GraphqlPlace → Char → Option (List GraphqlToken × GraphqlPlace)
  | .between, c => opening c
  | .name read, c =>
    if isNameRest c then some ([], .name (read ++ [c])) else after (.name read) c
  | .int read, c =>
    -- no integer but zero starts with one, and no name or fraction follows it
    if c.isDigit then if read = ['0'] then none else some ([], .int (read ++ [c]))
    else if isNameStart c || c = '.' then none else after (.int read) c
  | .str read, c =>
    if c = '\x22' then if read = [] then none else some ([.str read], .between)
    else if c = '\\' || c = '\n' || c = '\r' then none
    else some ([], .str (read ++ [c]))
  | .dots n, c =>
    if c = '.' then if n = 2 then some ([.spread], .between) else some ([], .dots (n + 1))
    else none

/-- The tokens of a piece of a document, and where it leaves the reader. -/
def lexFrom : GraphqlPlace → List Char → Option (List GraphqlToken × GraphqlPlace)
  | place, [] => some ([], place)
  | place, c :: cs =>
    (step place c).bind fun r => (lexFrom r.2 cs).map fun more => (r.1 ++ more.1, more.2)

/-- What the end of a document leaves. -/
def closing : GraphqlPlace → Option (List GraphqlToken)
  | .between => some []
  | .name read => some [.name read]
  | .int read => some [.int read]
  | .str _ => none
  | .dots _ => none

end GraphqlPlace

open GraphqlPlace

/-- The tokens of a text, where it has nothing else. -/
def graphqlTokens (cs : List Char) : Option (List GraphqlToken) :=
  (lexFrom .between cs).bind fun r => (closing r.2).map (r.1 ++ ·)

section Pieces

variable {place : GraphqlPlace} {cs ds read : List Char}

/-- **A document is read piece by piece.** -/
theorem lexFrom_append (place : GraphqlPlace) (cs ds : List Char) :
    lexFrom place (cs ++ ds) =
      (lexFrom place cs).bind fun r => (lexFrom r.2 ds).map fun more => (r.1 ++ more.1, more.2) := by
  induction cs generalizing place with
  | nil => simp [lexFrom]
  | cons c cs ih =>
    rw [List.cons_append, lexFrom, lexFrom]
    cases step place c with
    | none => rfl
    | some r =>
      rw [Option.bind_some, Option.bind_some, ih]
      cases lexFrom r.2 cs with
      | none => rfl
      | some more =>
        rw [Option.bind_some, Option.map_some, Option.bind_some, Option.map_map]
        simp [Function.comp_def]

/-- Two pieces that are read, one behind the other. -/
theorem lexFrom_trans {mid last : GraphqlPlace} {ts us : List GraphqlToken}
    (hcs : lexFrom place cs = some (ts, mid)) (hds : lexFrom mid ds = some (us, last)) :
    lexFrom place (cs ++ ds) = some (ts ++ us, last) := by
  rw [lexFrom_append, hcs, Option.bind_some, hds, Option.map_some]

/-- The characters of a name go on with it. -/
theorem lexFrom_name (h : ∀ c ∈ cs, isNameRest c = true) :
    lexFrom (.name read) cs = some ([], .name (read ++ cs)) := by
  induction cs generalizing read with
  | nil => simp [lexFrom]
  | cons c cs ih =>
    obtain ⟨hc, hcs⟩ := List.forall_mem_cons.mp h
    rw [lexFrom, step, if_pos hc, Option.bind_some, ih hcs]
    simp

/-- The text of a string goes on with it. -/
theorem lexFrom_str (h : ∀ c ∈ cs, c ≠ '\x22' ∧ c ≠ '\\' ∧ c ≠ '\n' ∧ c ≠ '\r') :
    lexFrom (.str read) cs = some ([], .str (read ++ cs)) := by
  induction cs generalizing read with
  | nil => simp [lexFrom]
  | cons c cs ih =>
    obtain ⟨⟨hquote, hescape, hline, hreturn⟩, hcs⟩ := List.forall_mem_cons.mp h
    rw [lexFrom, step, if_neg hquote, if_neg (by simp [hescape, hline, hreturn]), Option.bind_some,
      ih hcs]
    simp

/-- A digit behind no token starts a number. -/
theorem opening_digit {d : Char} (h : d.isDigit = true) : opening d = some ([], .int [d]) := by
  have hdigits : ∀ k < 10, opening (Char.ofNat (48 + k)) =
      some ([], .int [Char.ofNat (48 + k)]) := by decide
  obtain ⟨hlow, hhigh⟩ := toNat_of_isDigit h
  have hd : d = Char.ofNat (48 + (d.toNat - 48)) := by
    rw [Nat.add_sub_cancel' hlow, Char.ofNat_toNat]
  rw [hd]
  exact hdigits _ (by omega)

/-- The digits of a number go on with it. -/
theorem lexFrom_int (h : ∀ c ∈ cs, c.isDigit = true) (hread : read ≠ []) (hzero : read ≠ ['0']) :
    lexFrom (.int read) cs = some ([], .int (read ++ cs)) := by
  induction cs generalizing read with
  | nil => simp [lexFrom]
  | cons c cs ih =>
    obtain ⟨hc, hcs⟩ := List.forall_mem_cons.mp h
    have hmore : read ++ [c] ≠ ['0'] := by
      intro heq
      have hlength := congrArg List.length heq
      rw [List.length_append, List.length_singleton, List.length_singleton] at hlength
      exact hread (List.length_eq_zero_iff.mp (by omega))
    rw [lexFrom, step, if_pos hc, if_neg hzero, Option.bind_some,
      ih hcs (List.append_ne_nil_of_left_ne_nil hread _) hmore]
    simp

end Pieces

end SymphonyBoard
