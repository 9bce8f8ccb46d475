import SymphonyBoard.Common.Tally
/-!
# Counts on a plain object

`counts[key] = (counts[key] ?? 0) + 1` where `counts` starts as `{}`. Such
an object answers to the names it inherits, so under one of them the first
read gives a member of `Object.prototype`, and adding 1 to that appends to
its text. Under any other name the numbers are a tally (`count_inc`).
-/

namespace SymphonyBoard

/-- The members of `Object.prototype`. -/
def inheritedNames : List String :=
  ["constructor", "__defineGetter__", "__defineSetter__", "hasOwnProperty", "__lookupGetter__",
    "__lookupSetter__", "isPrototypeOf", "propertyIsEnumerable", "toString", "valueOf",
    "__proto__", "toLocaleString"]

/-- A name that no plain object inherits. -/
abbrev PlainKey := {key : String // key ∉ inheritedNames}

/-- The properties of such an object. -/
structure PlainCounts where
  numbers : OrdMap String ℕ
  /-- How many times a 1 is appended to the text of an inherited member. -/
  texts : OrdMap String ℕ

namespace PlainCounts

/-- An object without entries of its own. -/
def empty : PlainCounts := ⟨.empty, .empty⟩

/-- `counts[key] = (counts[key] ?? 0) + 1`. -/
def inc (counts : PlainCounts) (key : String) : PlainCounts :=
  -- a text is no prototype, and setting it changes nothing
  if key = "__proto__" then counts
  else if key ∈ inheritedNames then { counts with texts := counts.texts.addAt key 1 }
  else { counts with numbers := counts.numbers.addAt key 1 }

/-- The number counted for a key. -/
def count (counts : PlainCounts) (key : PlainKey) : ℕ := counts.numbers.count key.val

@[simp] theorem count_empty (key : PlainKey) : empty.count key = 0 := rfl

/-- **Under a name that is not inherited, each addition counts one.** -/
theorem count_inc (counts : PlainCounts) (name : String) (key : PlainKey) :
    (counts.inc name).count key = counts.count key + if name = key.val then 1 else 0 := by
  obtain ⟨key, hkey⟩ := key
  unfold inc count
  by_cases hname : name = key
  · subst hname
    have hproto : name ≠ "__proto__" := fun h => hkey (by rw [h]; decide)
    rw [if_neg hproto, if_neg hkey, OrdMap.count_addAt]
  · rw [if_neg hname]
    split
    · rfl
    · split
      · rfl
      · rw [OrdMap.count_addAt, if_neg hname]

theorem count_foldl_inc {α : Type*} (name : α → String) (l : List α) (counts : PlainCounts)
    (key : PlainKey) : (l.foldl (fun m x => m.inc (name x)) counts).count key =
      counts.count key + (l.filter fun x => name x = key.val).length := by
  induction l generalizing counts with
  | nil => rfl
  | cons x l ih =>
    rw [List.foldl_cons, ih, count_inc]
    by_cases hx : name x = key.val
    · rw [if_pos hx, List.filter_cons_of_pos (by simpa using hx), List.length_cons]
      omega
    · rw [if_neg hx, List.filter_cons_of_neg (by simpa using hx), Nat.add_zero]

end PlainCounts

end SymphonyBoard
