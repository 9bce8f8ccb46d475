import Mathlib.Data.Rat.Floor
import Mathlib.Data.Int.Log
import SymphonyBoard.Shared.Text
/-!
# Numbers as JavaScript reads them

`Number(text)`: the exact value a text spells, rounded to the nearest
double. A negative zero is a zero here.
-/

namespace SymphonyBoard

/-- A number of the language, but for the sign of zero. -/
inductive JsNumber where
  | finite (value : ℚ)
  | infinite (negative : Bool)
  | nan
deriving DecidableEq

/-- The nearest whole number, and the even one of two. -/
def roundHalfEven (q : ℚ) : ℤ :=
  let below := ⌊q⌋
  if q - below < 1 / 2 then below
  else if 1 / 2 < q - below then below + 1
  else if 2 ∣ below then below else below + 1

/-- The double nearest to a value: 53 significant bits, fewer below the
smallest normal number. -/
def toDouble (q : ℚ) : JsNumber :=
  let e : ℤ := max (Int.log 2 |q| - 52) (-1074)
  let rounded : ℚ := roundHalfEven (q / 2 ^ e) * 2 ^ e
  if |rounded| < 2 ^ (1024 : ℕ) then .finite rounded else .infinite (rounded < 0)

/-- The value of a digit; no digit of any base is as large as 16. -/
def radixDigit (c : Char) : ℕ :=
  if c.isDigit then c.toNat - 48
  else if 'a' ≤ c ∧ c ≤ 'f' then c.toNat - 87
  else if 'A' ≤ c ∧ c ≤ 'F' then c.toNat - 55
  else 16

/-- The value of digits. -/
def radixValue (base : ℕ) (cs : List Char) : ℕ :=
  cs.foldl (fun n c => n * base + radixDigit c) 0

/-- The digits after a `0x`, `0o` or `0b`. -/
def radixLiteral (base : ℕ) (cs : List Char) : JsNumber :=
  if cs ≠ [] ∧ cs.all (radixDigit · < base) then toDouble (radixValue base cs) else .nan

/-- What may follow the digits: nothing, or an exponent. -/
def exponentPart : List Char → Option ℤ
  | [] => some 0
  | e :: cs =>
    let digits := match cs with
      | '+' :: ds => ds
      | '-' :: ds => ds
      | ds => ds
    let size : ℤ := radixValue 10 digits
    if (e = 'e' ∨ e = 'E') ∧ digits ≠ [] ∧ digits.all Char.isDigit then
      some (if cs.head? = some '-' then -size else size)
    else none

/-- A decimal literal without its sign. -/
def decimalLiteral (cs : List Char) : Option ℚ :=
  let whole := cs.takeWhile Char.isDigit
  let (fraction, rest) := match cs.dropWhile Char.isDigit with
    | '.' :: rest => (rest.takeWhile Char.isDigit, rest.dropWhile Char.isDigit)
    | rest => ([], rest)
  if whole = [] ∧ fraction = [] then none
  else (exponentPart rest).map fun e =>
    (radixValue 10 (whole ++ fraction) : ℚ) * 10 ^ (e - (fraction.length : ℤ))

/-- A decimal literal with its sign. -/
def signedDecimal (negative : Bool) (cs : List Char) : JsNumber :=
  if cs = "Infinity".toList then .infinite negative
  else
    match decimalLiteral cs with
    | some q => toDouble (if negative then -q else q)
    | none => .nan

/-- `Number(text)`. -/
def numberOf (text : String) : JsNumber :=
  match trimChars text.toList with
  | [] => .finite 0
  | '0' :: 'x' :: cs => radixLiteral 16 cs
  | '0' :: 'X' :: cs => radixLiteral 16 cs
  | '0' :: 'o' :: cs => radixLiteral 8 cs
  | '0' :: 'O' :: cs => radixLiteral 8 cs
  | '0' :: 'b' :: cs => radixLiteral 2 cs
  | '0' :: 'B' :: cs => radixLiteral 2 cs
  | '-' :: cs => signedDecimal true cs
  | '+' :: cs => signedDecimal false cs
  | cs => signedDecimal false cs

end SymphonyBoard
