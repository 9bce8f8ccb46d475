import Mathlib.Order.Lattice
import SymphonyBoard.Common.OrdMap
/-!
# Groups that keep their greatest row

A loop gathers the rows that have a key into groups (`foldKeyed`), in the
order the groups were first met. What holds of a group after its first row,
and after each further one, holds of every group (`foldKeyed_rule`). Where
each step keeps the greater of what the group has and what the row has, a
group ends with the greatest of its rows (`KeepsGreatest.foldKeyed`).
-/

namespace SymphonyBoard

variable {α K V τ : Type*} [DecidableEq K] {key : α → Option K} {f : α → Option V → V}
variable {l : List α} {k : K} {v : V}

namespace OrdMap

/-- A loop of upserts at the rows that have a key. -/
def foldKeyed (key : α → Option K) (f : α → Option V → V) (l : List α) : OrdMap K V :=
  l.foldl (fun m a =>
    match key a with
    | none => m
    | some k => m.upsert k (f a)) .empty

theorem get?_foldKeyed (key : α → Option K) (f : α → Option V → V) (l : List α) (k : K) :
    (foldKeyed key f l).get? k =
      (l.filter fun a => key a = some k).foldl (fun o a => some (f a o)) none := by
  unfold foldKeyed
  induction l using List.reverseRecOn with
  | nil => rfl
  | append_singleton l a ih =>
    rw [List.foldl_append, List.foldl_cons, List.foldl_nil, List.filter_append, List.foldl_append,
      ← ih]
    cases hkey : key a with
    | none => simp [hkey]
    | some ka =>
      show (OrdMap.upsert _ ka (f a)).get? k = _
      rw [get?_upsert]
      by_cases hk : ka = k
      · subst hk
        simp [hkey]
      · simp [hkey, hk]

omit [DecidableEq K] in
/-- The rows of a group leave nothing only where there are none. -/
theorem eq_nil_of_foldl_some (h : l.foldl (fun o a => some (f a o)) none = none) : l = [] := by
  induction l using List.reverseRecOn with
  | nil => rfl
  | append_singleton l a _ =>
    rw [List.foldl_append] at h
    cases h

/-- **The rule of the grouping loop.** -/
theorem foldKeyed_rule {P : K → List α → V → Prop}
    (hfirst : ∀ a k, key a = some k → P k [a] (f a none))
    (hnext : ∀ a k rows v, key a = some k → P k rows v → P k (rows ++ [a]) (f a (some v)))
    (hv : (foldKeyed key f l).get? k = some v) : P k (l.filter fun a => key a = some k) v := by
  rw [get?_foldKeyed] at hv
  have hkey : ∀ a ∈ l.filter (fun a => key a = some k), key a = some k := fun a ha => by
    simpa using (List.mem_filter.mp ha).2
  generalize l.filter (fun a => decide (key a = some k)) = rows at hv hkey
  induction rows using List.reverseRecOn generalizing v with
  | nil => cases hv
  | append_singleton rows a ih =>
    rw [List.foldl_append, List.foldl_cons, List.foldl_nil, Option.some.injEq] at hv
    have ha := hkey a (List.mem_append_right _ (List.mem_singleton_self a))
    have hrows := fun b hb => hkey b (List.mem_append_left _ hb)
    cases ho : rows.foldl (fun o a => some (f a o)) none with
    | none =>
      obtain rfl := eq_nil_of_foldl_some ho
      rw [ho] at hv
      subst hv
      exact hfirst a k ha
    | some w =>
      rw [ho] at hv
      subst hv
      exact hnext a k rows w ha (ih ho hrows)

/-- A row's key has a group. -/
theorem exists_foldKeyed {a : α} (ha : a ∈ l) (hk : key a = some k) :
    ∃ v, (foldKeyed key f l).get? k = some v := by
  rw [get?_foldKeyed]
  have hmem : a ∈ l.filter fun a => key a = some k := List.mem_filter.mpr ⟨ha, by simpa using hk⟩
  refine Option.ne_none_iff_exists'.mp fun hnone => ?_
  rw [eq_nil_of_foldl_some hnone] at hmem
  cases hmem

end OrdMap

variable [LinearOrder τ] {val : α → τ} {view : V → τ}

/-- A step that keeps the greater of what the group has and what the row has. -/
structure KeepsGreatest (val : α → τ) (view : V → τ) (f : α → Option V → V) : Prop where
  first : ∀ a, view (f a none) = val a
  next : ∀ a v, view (f a (some v)) = max (view v) (val a)

/-- The value of a row with the key, no less than any of them. -/
structure GreatestAt (key : α → Option K) (val : α → τ) (l : List α) (k : K) (t : τ) : Prop where
  isOne : ∃ a ∈ l, key a = some k ∧ val a = t
  isGreatest : ∀ a ∈ l, key a = some k → val a ≤ t

omit [DecidableEq K] in
theorem GreatestAt.unique {t u : τ} (h : GreatestAt key val l k t) (h' : GreatestAt key val l k u) :
    t = u := by
  obtain ⟨a, ha, hka, rfl⟩ := h.isOne
  obtain ⟨b, hb, hkb, rfl⟩ := h'.isOne
  exact le_antisymm (h'.isGreatest a ha hka) (h.isGreatest b hb hkb)

/-- **A group ends with the greatest of its rows.** -/
theorem KeepsGreatest.foldKeyed (h : KeepsGreatest val view f)
    (hv : (OrdMap.foldKeyed key f l).get? k = some v) : GreatestAt key val l k (view v) := by
  have hrule := OrdMap.foldKeyed_rule
    (P := fun _ rows v => (∃ a ∈ rows, val a = view v) ∧ ∀ a ∈ rows, val a ≤ view v)
    (fun a _ _ => ⟨⟨a, List.mem_singleton_self a, (h.first a).symm⟩, fun b hb => by
      rw [List.mem_singleton.mp hb, h.first]⟩)
    (fun a _ rows w _ hrows => by
      obtain ⟨⟨b, hb, hbw⟩, hle⟩ := hrows
      rw [h.next]
      constructor
      · rcases le_total (view w) (val a) with hwa | haw
        · exact ⟨a, List.mem_append_right _ (List.mem_singleton_self a), (max_eq_right hwa).symm⟩
        · exact ⟨b, List.mem_append_left _ hb, by rw [max_eq_left haw, hbw]⟩
      · intro c hc
        rcases List.mem_append.mp hc with hc | hc
        · exact (hle c hc).trans (le_max_left _ _)
        · rw [List.mem_singleton.mp hc]
          exact le_max_right _ _) hv
  obtain ⟨⟨a, ha, hav⟩, hle⟩ := hrule
  obtain ⟨hal, hka⟩ := List.mem_filter.mp ha
  refine ⟨⟨a, hal, by simpa using hka, hav⟩, fun b hb hkb => hle b ?_⟩
  exact List.mem_filter.mpr ⟨hb, by simpa using hkb⟩

end SymphonyBoard
