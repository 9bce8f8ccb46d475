import SymphonyBoard.Common.Digits
/-!
# JSON values

What `JSON.parse` returns, read the way untyped JavaScript code reads it:
a property that is not there is `undefined`, here `none`, and every value
has a truth value and a text. A number is a decimal, its digits and how
many of them stand after the point. `mapM_eq_some_iff` is the rule for
decoding a list element by element.
-/

namespace SymphonyBoard

/-- A value of a document; a number keeps its decimal places. -/
inductive Json
  | null
  | bool (b : Bool)
  | num (mantissa : ℤ) (scale : ℕ)
  | str (s : String)
  | arr (elems : List Json)
  | obj (fields : List (String × Json))

namespace Json

/-- A property of an object; nothing else has the ones asked for. -/
def field? (j : Json) (name : String) : Option Json :=
  match j with
  | .obj fields => fields.lookup name
  | _ => none

/-- `isPlainObject` -/
def isPlainObject : Json → Bool
  | .obj _ => true
  | _ => false

/-- `typeof x === "object" && x !== null`. -/
def isObject : Json → Bool
  | .obj _ => true
  | .arr _ => true
  | _ => false

/-- The text of a value that is one. -/
def str? : Json → Option String
  | .str s => some s
  | _ => none

/-- The elements of a value that is an array. -/
def arr? : Json → Option (List Json)
  | .arr elems => some elems
  | _ => none

/-- The truth of a value that is one. -/
def bool? : Json → Option Bool
  | .bool b => some b
  | _ => none

/-- `Number.isInteger`. -/
def isInteger : Json → Bool
  | .num mantissa scale => mantissa % 10 ^ scale = 0
  | _ => false

/-- `!x` is false. -/
def truthy : Option Json → Bool
  | none => false
  | some .null => false
  | some (.bool b) => b
  | some (.num mantissa _) => mantissa ≠ 0
  | some (.str s) => s ≠ ""
  | some _ => true

/-- A number as it is written. -/
def numText (mantissa : ℤ) (scale : ℕ) : String :=
  if scale = 0 then toString mantissa
  else
    let n := mantissa.natAbs
    (if mantissa < 0 then "-" else "") ++ toString (n / 10 ^ scale) ++ "." ++
      String.ofList (digits scale (n % 10 ^ scale))

mutual

/-- `String(x)`. -/
def text : Json → String
  | .null => "null"
  | .bool b => if b then "true" else "false"
  | .num mantissa scale => numText mantissa scale
  | .str s => s
  | .arr elems => ",".intercalate (texts elems)
  | .obj _ => "[object Object]"

/-- The elements of an array as `join` writes them. -/
def texts : List Json → List String
  | [] => []
  | .null :: elems => "" :: texts elems
  | elem :: elems => text elem :: texts elems

end

/-- The text of a property, there or not. -/
def optText : Option Json → String
  | none => "undefined"
  | some j => j.text

/-! ## Decoding -/

/-- An optional property of a type: absent, or of the type. -/
def optionalField {α : Type} (decode : Json → Option α) : Option Json → Option (Option α)
  | none => some none
  | some j => (decode j).map some

/-- A property that has to be there. -/
def requiredField {α : Type} (decode : Json → Option α) (j : Option Json) : Option α := j.bind decode

/-- A record of values of one type. -/
def record? {α : Type} (decode : Json → Option α) : Json → Option (List (String × α))
  | .obj fields => fields.mapM fun f => (decode f.2).map fun a => (f.1, a)
  | _ => none

end Json

/-- A list is decoded when each of its elements is. -/
theorem mapM_eq_some_iff {α β : Type} {f : α → Option β} {l : List α} {l' : List β} :
    l.mapM f = some l' ↔ List.Forall₂ (fun a b => f a = some b) l l' := by
  induction l generalizing l' with
  | nil =>
    constructor
    · intro h
      obtain rfl := Option.some.inj h
      exact List.Forall₂.nil
    · intro h
      cases h
      rfl
  | cons a l ih =>
    rw [List.mapM_cons]
    constructor
    · intro h
      cases ha : f a with
      | none =>
        rw [ha] at h
        cases h
      | some b =>
        cases hl : l.mapM f with
        | none =>
          rw [ha, hl] at h
          cases h
        | some bs =>
          rw [ha, hl] at h
          obtain rfl := Option.some.inj h
          exact List.Forall₂.cons ha (ih.mp hl)
    · intro h
      cases h with
      | cons ha hl =>
        rw [ha, ih.mpr hl]
        rfl

/-- What was decoded came from an element. -/
theorem exists_of_mem_mapM {α β : Type} {f : α → Option β} {l : List α} {l' : List β}
    (h : l.mapM f = some l') {b : β} (hb : b ∈ l') : ∃ a ∈ l, f a = some b := by
  have hall := mapM_eq_some_iff.mp h
  clear h
  induction hall with
  | nil => cases hb
  | @cons a _ _ _ ha _ ih =>
    rcases List.mem_cons.mp hb with rfl | hb
    · exact ⟨a, List.mem_cons_self, ha⟩
    · obtain ⟨a', hmem, ha'⟩ := ih hb
      exact ⟨a', List.mem_cons_of_mem _ hmem, ha'⟩

end SymphonyBoard
