import SymphonyBoard.Common.OrdMap
/-!
# Memo tables

A table of values of one function, filled on demand. That its entries are
the function's values is a field, so a lookup is the function whatever was
asked before (`Memo.get_fst`), and no caller reasons about the table.
-/

namespace SymphonyBoard

variable {K V : Type*} [DecidableEq K]

/-- A table that holds nothing but what `f` computes. -/
structure Memo (f : K → V) where
  table : OrdMap K V
  sound : ∀ k v, table.get? k = some v → v = f k

namespace Memo

variable {f : K → V}

/-- Nothing has been computed. -/
def empty : Memo f where
  table := .empty
  sound k v h := by cases h

/-- The value of a key, from the table or computed and kept. -/
def get (m : Memo f) (k : K) : V × Memo f :=
  match m.table.get? k with
  | some v => (v, m)
  | none =>
    (f k,
      { table := m.table.set k (f k)
        sound := by
          intro k' v h
          rw [OrdMap.get?_set] at h
          split at h
          · rename_i heq
            rw [← Option.some.inj h, heq]
          · exact m.sound k' v h })

/-- **A lookup gives the function's value.** -/
@[simp] theorem get_fst (m : Memo f) (k : K) : (m.get k).1 = f k := by
  unfold get
  split
  · rename_i v h
    exact m.sound k v h
  · rfl

end Memo

end SymphonyBoard
