import Mathlib.Data.List.Induction
import Mathlib.Data.List.Nodup
/-!
# Insertion-ordered maps

A finite map kept as the list of its bindings: every key is bound once,
and the bindings stand in the order their keys were first bound. This is
what a JavaScript `Map` iterates as, and what a database table with a
unique key and an auto-increment id is when read back in id order. The
keys' distinctness is a field, so no later proof has to carry it.

`get?_foldl_upsert` is the rule the users of this file lean on: after a
loop of upserts, what a key is bound to depends only on the iterations
that touched that key.
-/

namespace SymphonyBoard

/-- A finite map that remembers the order its keys were first bound in. -/
structure OrdMap (K V : Type*) where
  entries : List (K × V)
  nodup : (entries.map Prod.fst).Nodup

namespace OrdMap

variable {K V W α : Type*} [DecidableEq K]

/-- The binding of a key in a list of bindings. -/
def lookupEntry (k : K) : List (K × V) → Option V
  | [] => none
  | (k', v) :: l => if k' = k then some v else lookupEntry k l

/-- Rebind a key in place, or append a new binding. The new value may read
the old one. -/
def upsertEntry (k : K) (f : Option V → V) : List (K × V) → List (K × V)
  | [] => [(k, f none)]
  | (k', v) :: l => if k' = k then (k', f (some v)) :: l else (k', v) :: upsertEntry k f l

theorem mem_keys_upsertEntry {k k' : K} {f : Option V → V} {l : List (K × V)} :
    k' ∈ (upsertEntry k f l).map Prod.fst ↔ k' = k ∨ k' ∈ l.map Prod.fst := by
  induction l with
  | nil => simp [upsertEntry]
  | cons b l ih =>
    obtain ⟨kb, v⟩ := b
    unfold upsertEntry
    split
    · rename_i h
      subst h
      simp
    · simp only [List.map_cons, List.mem_cons, ih]
      exact or_left_comm

theorem nodup_keys_upsertEntry {k : K} {f : Option V → V} {l : List (K × V)}
    (h : (l.map Prod.fst).Nodup) : ((upsertEntry k f l).map Prod.fst).Nodup := by
  induction l with
  | nil => simp [upsertEntry]
  | cons b l ih =>
    obtain ⟨kb, v⟩ := b
    obtain ⟨hb, hl⟩ := List.nodup_cons.mp h
    unfold upsertEntry
    split
    · exact h
    · rename_i hne
      refine List.nodup_cons.mpr ⟨fun hmem => ?_, ih hl⟩
      rcases mem_keys_upsertEntry.mp hmem with rfl | hmem
      · exact hne rfl
      · exact hb hmem

theorem lookupEntry_upsertEntry (k k' : K) (f : Option V → V) (l : List (K × V)) :
    lookupEntry k' (upsertEntry k f l) =
      if k = k' then some (f (lookupEntry k l)) else lookupEntry k' l := by
  induction l with
  | nil => simp [upsertEntry, lookupEntry]
  | cons b l ih =>
    obtain ⟨kb, v⟩ := b
    by_cases hb : kb = k
    · subst hb
      by_cases hk : kb = k' <;> simp [upsertEntry, lookupEntry, hk]
    · rw [upsertEntry, if_neg hb, lookupEntry, ih, lookupEntry, lookupEntry, if_neg hb]
      by_cases hk : k = k'
      · subst hk
        simp [hb]
      · simp [hk]

theorem mem_iff_lookupEntry {k : K} {v : V} {l : List (K × V)} (h : (l.map Prod.fst).Nodup) :
    (k, v) ∈ l ↔ lookupEntry k l = some v := by
  induction l with
  | nil => simp [lookupEntry]
  | cons b l ih =>
    obtain ⟨kb, vb⟩ := b
    obtain ⟨hb, hl⟩ := List.nodup_cons.mp h
    rw [lookupEntry, List.mem_cons, ih hl]
    by_cases hk : kb = k
    · subst hk
      have hnone : lookupEntry kb l ≠ some v := fun hc =>
        hb (List.mem_map.mpr ⟨(kb, v), (ih hl).mpr hc, rfl⟩)
      simp [hnone, eq_comm]
    · simp [hk, Ne.symm hk]

/-- The map with no bindings. -/
def empty : OrdMap K V := ⟨[], List.nodup_nil⟩

/-- What a key is bound to. -/
def get? (m : OrdMap K V) (k : K) : Option V := lookupEntry k m.entries

/-- Rebind a key in place, or bind it last: `INSERT .. ON CONFLICT DO
UPDATE`, and `Map.set`. -/
def upsert (m : OrdMap K V) (k : K) (f : Option V → V) : OrdMap K V :=
  ⟨upsertEntry k f m.entries, nodup_keys_upsertEntry m.nodup⟩

/-- Bind a key whatever it was bound to. -/
def set (m : OrdMap K V) (k : K) (v : V) : OrdMap K V := m.upsert k fun _ => v

/-- Rewrite every binding, keys kept: an `UPDATE` over the table. -/
def mapWithKey (m : OrdMap K V) (f : K → V → V) : OrdMap K V :=
  ⟨m.entries.map fun b => (b.1, f b.1 b.2), by
    simpa [List.map_map, Function.comp_def] using m.nodup⟩

/-- Each value replaced by its image, keys kept. -/
def mapValues (m : OrdMap K V) (f : V → W) : OrdMap K W :=
  ⟨m.entries.map fun b => (b.1, f b.2), by
    simpa [List.map_map, Function.comp_def] using m.nodup⟩

/-- Unbind a key: a `DELETE` by the unique key. -/
def erase (m : OrdMap K V) (k : K) : OrdMap K V :=
  ⟨m.entries.filter fun b => b.1 ≠ k, m.nodup.sublist (List.filter_sublist.map _)⟩

/-- The bound values, in binding order. -/
def values (m : OrdMap K V) : List V := m.entries.map Prod.snd

/-- The map a list of items makes, later items overriding earlier ones at
the earlier one's place. -/
def index (key : α → K) (l : List α) : OrdMap K α := l.foldl (fun m x => m.set (key x) x) empty

/-- The values of each key of a list, in order. -/
def group (key : α → K) (value : α → V) (l : List α) : OrdMap K (List V) :=
  l.foldl (fun m x => m.upsert (key x) fun old => old.getD [] ++ [value x]) empty

@[simp] theorem get?_empty (k : K) : (empty : OrdMap K V).get? k = none := rfl

@[simp] theorem get?_upsert (m : OrdMap K V) (k k' : K) (f : Option V → V) :
    (m.upsert k f).get? k' = if k = k' then some (f (m.get? k)) else m.get? k' :=
  lookupEntry_upsertEntry k k' f m.entries

@[simp] theorem get?_set (m : OrdMap K V) (k k' : K) (v : V) :
    (m.set k v).get? k' = if k = k' then some v else m.get? k' :=
  get?_upsert m k k' _

@[simp] theorem get?_mapWithKey (m : OrdMap K V) (f : K → V → V) (k : K) :
    (m.mapWithKey f).get? k = (m.get? k).map (f k) := by
  have aux : ∀ l : List (K × V),
      lookupEntry k (l.map fun b => (b.1, f b.1 b.2)) = (lookupEntry k l).map (f k) := by
    intro l
    induction l with
    | nil => rfl
    | cons b l ih =>
      obtain ⟨kb, v⟩ := b
      by_cases hk : kb = k
      · subst hk
        simp [lookupEntry]
      · simp [lookupEntry, hk, ih]
  exact aux m.entries

@[simp] theorem get?_mapValues (m : OrdMap K V) (f : V → W) (k : K) :
    (m.mapValues f).get? k = (m.get? k).map f := by
  have aux : ∀ l : List (K × V),
      lookupEntry k (l.map fun b => (b.1, f b.2)) = (lookupEntry k l).map f := by
    intro l
    induction l with
    | nil => rfl
    | cons b l ih =>
      obtain ⟨kb, v⟩ := b
      by_cases hk : kb = k
      · subst hk
        simp [lookupEntry]
      · simp [lookupEntry, hk, ih]
  exact aux m.entries

theorem upsertEntry_of_none {k : K} {f : Option V → V} {l : List (K × V)}
    (h : lookupEntry k l = none) : upsertEntry k f l = l ++ [(k, f none)] := by
  induction l with
  | nil => rfl
  | cons b l ih =>
    obtain ⟨kb, v⟩ := b
    unfold lookupEntry at h
    split at h
    · cases h
    · rename_i hne
      rw [upsertEntry, if_neg hne, ih h]
      rfl

/-- A new key is bound last. -/
theorem entries_set_of_none {m : OrdMap K V} {k : K} (v : V) (h : m.get? k = none) :
    (m.set k v).entries = m.entries ++ [(k, v)] := upsertEntry_of_none h

/-- **A loop of upserts, read at one key.** Only the iterations at that key
matter, and they fold over what the key was bound to before. -/
theorem get?_foldl_upsert (key : α → K) (f : α → Option V → V) (l : List α) (m : OrdMap K V)
    (k : K) :
    (l.foldl (fun m x => m.upsert (key x) (f x)) m).get? k =
      (l.filter fun x => key x = k).foldl (fun o x => some (f x o)) (m.get? k) := by
  induction l generalizing m with
  | nil => rfl
  | cons x l ih =>
    rw [List.foldl_cons, ih, get?_upsert]
    by_cases hk : key x = k
    · subst hk
      simp
    · simp [hk]

/-- The same for plain bindings: the last iteration at the key decides. -/
theorem get?_foldl_set (key : α → K) (f : α → V) (l : List α) (m : OrdMap K V) (k : K) :
    (l.foldl (fun m x => m.set (key x) (f x)) m).get? k =
      (((l.filter fun x => key x = k).getLast?).map f).or (m.get? k) := by
  have h := get?_foldl_upsert key (fun x _ => f x) l m k
  simp only [set]
  rw [h]
  generalize l.filter (fun x => decide (key x = k)) = l'
  induction l' using List.reverseRecOn with
  | nil => simp
  | append_singleton l' x _ => simp

/-- A binding after some were set is one of those, or was there before. -/
theorem get?_foldl_set_eq_some {key : α → K} {f : α → V} {l : List α} {m : OrdMap K V} {k : K}
    {v : V} (h : (l.foldl (fun m x => m.set (key x) (f x)) m).get? k = some v) :
    (∃ x ∈ l, key x = k ∧ f x = v) ∨ m.get? k = some v := by
  rw [get?_foldl_set, Option.or_eq_some_iff] at h
  rcases h with h | ⟨-, h⟩
  · obtain ⟨x, hx, rfl⟩ := Option.map_eq_some_iff.mp h
    obtain ⟨hmem, hkey⟩ := List.mem_filter.mp (List.mem_of_getLast? hx)
    exact Or.inl ⟨x, hmem, of_decide_eq_true hkey, rfl⟩
  · exact Or.inr h

/-- Where all that is set at a key is one value, that is what it is bound
to. -/
theorem get?_foldl_set_of {key : α → K} {f : α → V} {l : List α} {m : OrdMap K V} {k : K} {v : V}
    (hsame : ∀ x ∈ l, key x = k → f x = v) (h : (∃ x ∈ l, key x = k) ∨ m.get? k = some v) :
    (l.foldl (fun m x => m.set (key x) (f x)) m).get? k = some v := by
  rw [get?_foldl_set]
  cases hlast : (l.filter fun x => decide (key x = k)).getLast? with
  | some x =>
    obtain ⟨hmem, hkey⟩ := List.mem_filter.mp (List.mem_of_getLast? hlast)
    rw [Option.map_some, Option.some_or, hsame x hmem (of_decide_eq_true hkey)]
  | none =>
    rw [Option.map_none, Option.none_or]
    refine h.resolve_left ?_
    rintro ⟨x, hx, hkey⟩
    have hnil := List.getLast?_eq_none_iff.mp hlast
    exact absurd (decide_eq_true hkey) (List.filter_eq_nil_iff.mp hnil x hx)

/-- The items listed under the keys of a map, at one key. -/
theorem filter_flatMap_entries (m : OrdMap K V) (f : K × V → List W) (k : K) :
    ((m.entries.flatMap fun b => (f b).map fun x => (b.1, x)).filter fun l =>
      decide (l.1 = k)).map Prod.snd = (m.get? k).elim [] fun v => f (k, v) := by
  obtain ⟨l, hl⟩ := m
  unfold get?
  simp only
  induction l with
  | nil => rfl
  | cons b l ih =>
    obtain ⟨kb, v⟩ := b
    obtain ⟨hb, hnd⟩ := List.nodup_cons.mp hl
    rw [List.flatMap_cons, List.filter_append, List.map_append, ih hnd, List.filter_map,
      List.map_map, lookupEntry]
    by_cases hk : kb = k
    · subst hk
      have hnone : lookupEntry kb l = none := by
        rw [Option.eq_none_iff_forall_ne_some]
        intro w hw
        exact hb (List.mem_map.mpr ⟨(kb, w), (mem_iff_lookupEntry hnd).mpr hw, rfl⟩)
      rw [hnone, if_pos rfl]
      simp [Function.comp_def]
    · rw [if_neg hk]
      simp [Function.comp_def, hk]

theorem mem_entries_iff {m : OrdMap K V} {k : K} {v : V} :
    (k, v) ∈ m.entries ↔ m.get? k = some v :=
  mem_iff_lookupEntry m.nodup

@[simp] theorem get?_erase (m : OrdMap K V) (k k' : K) :
    (m.erase k).get? k' = if k' = k then none else m.get? k' := by
  ext v
  rw [← mem_entries_iff, erase, List.mem_filter, decide_eq_true_eq, mem_entries_iff]
  by_cases hk : k' = k
  · simp [hk]
  · simp [hk]

/-- A value is listed exactly when some key is bound to it. -/
theorem mem_values_iff {m : OrdMap K V} {v : V} : v ∈ m.values ↔ ∃ k, m.get? k = some v := by
  simp only [values, List.mem_map, Prod.exists, exists_eq_right, mem_entries_iff]

/-- Where the values carry their own keys, the values of one key are what
the key is bound to. -/
theorem filter_values (m : OrdMap K V) (key : V → K) (hkey : ∀ b ∈ m.entries, key b.2 = b.1)
    (k : K) : (m.values.filter fun v => key v = k) = (m.get? k).toList := by
  obtain ⟨l, hl⟩ := m
  simp only [values, get?] at hkey ⊢
  induction l with
  | nil => rfl
  | cons b l ih =>
    obtain ⟨kb, v⟩ := b
    obtain ⟨hb, hnd⟩ := List.nodup_cons.mp hl
    have ih := ih hnd fun b h => hkey b (List.mem_cons_of_mem _ h)
    have hv : key v = kb := hkey (kb, v) List.mem_cons_self
    by_cases hk : kb = k
    · subst hk
      have hnone : lookupEntry kb l = none := by
        rw [Option.eq_none_iff_forall_ne_some]
        intro w hw
        exact hb (List.mem_map.mpr ⟨(kb, w), (mem_iff_lookupEntry hnd).mpr hw, rfl⟩)
      rw [hnone] at ih
      rw [List.map_cons, List.filter_cons_of_pos (by simp [hv]), ih, lookupEntry, if_pos rfl]
      rfl
    · rw [List.map_cons, List.filter_cons_of_neg (by simp [hv, hk]), ih, lookupEntry, if_neg hk]

theorem get?_index (key : α → K) (l : List α) (k : K) :
    (index key l).get? k = (l.filter fun x => key x = k).getLast? := by
  have h := get?_foldl_set key (fun x => x) l empty k
  rw [Option.map_id', get?_empty, Option.or_none] at h
  exact h

/-- The index of a list whose keys tell its items apart. -/
theorem get?_index_eq_some {key : α → K} {l : List α}
    (hkeys : ∀ a ∈ l, ∀ b ∈ l, key a = key b → a = b) {k : K} {a : α} :
    (index key l).get? k = some a ↔ a ∈ l ∧ key a = k := by
  rw [get?_index]
  constructor
  · intro h
    obtain ⟨hmem, hkey⟩ := List.mem_filter.mp (List.mem_of_getLast? h)
    exact ⟨hmem, by simpa using hkey⟩
  · rintro ⟨ha, rfl⟩
    have hne : (l.filter fun b => decide (key b = key a)) ≠ [] :=
      List.ne_nil_of_mem (List.mem_filter.mpr ⟨ha, by simp⟩)
    obtain ⟨hmem, hkey⟩ := List.mem_filter.mp (List.getLast_mem hne)
    rw [List.getLast?_eq_some_getLast hne]
    exact congrArg some (hkeys _ hmem _ ha (by simpa using hkey))

theorem get?_group (key : α → K) (value : α → V) (l : List α) (k : K) :
    (group key value l).get? k =
      if (l.filter fun x => key x = k) = [] then none
      else some ((l.filter fun x => key x = k).map value) := by
  unfold group
  rw [get?_foldl_upsert key (fun x old => old.getD [] ++ [value x]), get?_empty]
  generalize (l.filter fun x => key x = k) = l'
  induction l' using List.reverseRecOn with
  | nil => rfl
  | append_singleton l' x ih =>
    rw [List.foldl_append, ih]
    by_cases h : l' = []
    · simp [h]
    · simp [h]

/-- A value is in its key's group. -/
theorem mem_group {key : α → K} {value : α → V} {l : List α} {k : K} {v : V} :
    (∃ vs, (k, vs) ∈ (group key value l).entries ∧ v ∈ vs) ↔ ∃ x ∈ l, key x = k ∧ value x = v := by
  simp only [mem_entries_iff, get?_group]
  by_cases h : (l.filter fun x => decide (key x = k)) = []
  · rw [if_pos h]
    simp only [List.filter_eq_nil_iff, decide_eq_true_eq] at h
    simp only [reduceCtorEq, false_and, exists_false, false_iff, not_exists, not_and]
    exact fun x hx hk => absurd hk (h x hx)
  · rw [if_neg h]
    simp only [Option.some.injEq, exists_eq_left', List.mem_map, List.mem_filter,
      decide_eq_true_eq, and_assoc]

end OrdMap

end SymphonyBoard
