import Mathlib.Order.Lattice
import Mathlib.Data.List.Pairwise
import Mathlib.Data.List.Nodup
import Mathlib.Data.List.Sort
import SymphonyBoard.Common.OrdMap
/-!
# Lists sorted strictly downwards by a key

Such a list holds at most one item a key, and is determined by its items
(`Descending.ext`). An item is put in at the place a binary search finds,
replacing the item of its key if there is one (`insertDesc`); items put in
one after the other leave the last item of every key (`foldl_insertDesc`),
and so the list that sorting these gives (`foldl_insertDesc_eq`).
-/

namespace SymphonyBoard

variable {α κ : Type*} [LinearOrder κ]

/-- Sorted downwards by key, no key twice. -/
def Descending (key : α → κ) (l : List α) : Prop := l.Pairwise fun a b => key b < key a

instance (key : α → κ) (l : List α) : Decidable (Descending key l) :=
  inferInstanceAs (Decidable (l.Pairwise fun a b => key b < key a))

namespace Descending

variable {key : α → κ} {l m : List α}

theorem nil : Descending key ([] : List α) := List.Pairwise.nil

theorem nodup (h : Descending key l) : l.Nodup :=
  h.imp fun hlt heq => absurd (congrArg key heq) (ne_of_gt hlt)

theorem sublist (h : Descending key l) (hs : m.Sublist l) : Descending key m :=
  List.Pairwise.sublist hs h

theorem take (h : Descending key l) (n : ℕ) : Descending key (l.take n) :=
  h.sublist (List.take_sublist n l)

theorem filter (h : Descending key l) (p : α → Bool) : Descending key (l.filter p) :=
  h.sublist List.filter_sublist

/-- Two items of one key are the same item. -/
theorem eq_of_key (h : Descending key l) {a b : α} (ha : a ∈ l) (hb : b ∈ l)
    (hk : key a = key b) : a = b := by
  have hnodup : (l.map key).Nodup := List.pairwise_map.mpr (h.imp fun hlt => ne_of_gt hlt)
  exact List.inj_on_of_nodup_map hnodup ha hb hk

/-- **A descending list is determined by its items.** -/
theorem ext (hl : Descending key l) (hm : Descending key m) (h : ∀ a, a ∈ l ↔ a ∈ m) : l = m := by
  have hperm : l.Perm m := (List.perm_ext_iff_of_nodup hl.nodup hm.nodup).mpr h
  refine hperm.eq_of_pairwise ?_ hl hm
  intro a b _ _ hab hba
  exact absurd (lt_trans hab hba) (lt_irrefl _)

/-- Lists in front of each other. -/
theorem append (hl : Descending key l) (hm : Descending key m)
    (h : ∀ a ∈ l, ∀ b ∈ m, key b < key a) : Descending key (l ++ m) :=
  List.pairwise_append.mpr ⟨hl, hm, h⟩

theorem getLast_le {first : α} {rest : List α} (h : Descending key (first :: rest)) :
    key ((first :: rest).getLast (List.cons_ne_nil _ _)) ≤ key first := by
  rcases List.mem_cons.mp (List.getLast_mem (List.cons_ne_nil first rest)) with hlast | hlast
  · rw [hlast]
  · exact le_of_lt ((List.pairwise_cons.mp h).1 _ hlast)

/-- What lies between the ends of a run of a descending list is that run. -/
theorem filter_between_eq (h : Descending key l) {above below : List α} {first : α}
    {rest : List α} (heq : l = above ++ (first :: rest) ++ below) :
    l.filter (fun a =>
      decide (key ((first :: rest).getLast (List.cons_ne_nil _ _)) ≤ key a) &&
        decide (key a ≤ key first)) = first :: rest := by
  subst heq
  obtain ⟨hfront, -, hback⟩ := List.pairwise_append.mp h
  obtain ⟨-, hrun, habove⟩ := List.pairwise_append.mp hfront
  have hlast : (first :: rest).getLast (List.cons_ne_nil _ _) ∈ first :: rest :=
    List.getLast_mem _
  have hends : ∀ a ∈ first :: rest, key a ≤ key first ∧
      key ((first :: rest).getLast (List.cons_ne_nil _ _)) ≤ key a := by
    intro a ha
    constructor
    · rcases List.mem_cons.mp ha with rfl | ha
      · exact le_rfl
      · exact le_of_lt ((List.pairwise_cons.mp hrun).1 a ha)
    · obtain ⟨init, hinit⟩ : ∃ init, first :: rest =
          init ++ [(first :: rest).getLast (List.cons_ne_nil _ _)] :=
        ⟨_, (List.dropLast_append_getLast _).symm⟩
      rw [hinit] at ha hrun
      rcases List.mem_append.mp ha with ha | ha
      · exact le_of_lt ((List.pairwise_append.mp hrun).2.2 a ha _ (by simp))
      · rw [List.mem_singleton.mp ha]
  -- what stands above is too great, what stands below too small
  rw [List.filter_append, List.filter_append]
  have h1 : above.filter (fun a =>
      decide (key ((first :: rest).getLast (List.cons_ne_nil _ _)) ≤ key a) &&
        decide (key a ≤ key first)) = [] := by
    refine List.filter_eq_nil_iff.mpr fun a ha hp => ?_
    have hlt : key first < key a := habove a ha first List.mem_cons_self
    simp only [Bool.and_eq_true, decide_eq_true_eq] at hp
    exact absurd hp.2 (not_le.mpr hlt)
  have h2 : below.filter (fun a =>
      decide (key ((first :: rest).getLast (List.cons_ne_nil _ _)) ≤ key a) &&
        decide (key a ≤ key first)) = [] := by
    refine List.filter_eq_nil_iff.mpr fun a ha hp => ?_
    have hlt : key a < key ((first :: rest).getLast (List.cons_ne_nil _ _)) :=
      hback _ (List.mem_append_right _ hlast) a ha
    simp only [Bool.and_eq_true, decide_eq_true_eq] at hp
    exact absurd hp.1 (not_le.mpr hlt)
  have h3 : (first :: rest).filter (fun a =>
      decide (key ((first :: rest).getLast (List.cons_ne_nil _ _)) ≤ key a) &&
        decide (key a ≤ key first)) = first :: rest := by
    refine List.filter_eq_self.mpr fun a ha => ?_
    simp only [Bool.and_eq_true, decide_eq_true_eq]
    exact ⟨(hends a ha).2, (hends a ha).1⟩
  rw [h1, h2, h3, List.nil_append, List.append_nil]

/-- **Reading a run again by its ends**: a filter that keeps all keys in
between its ends reads the same run as the range does without it. -/
theorem filter_range_eq {p : α → Bool} (h : Descending key (l.filter p)) {above below : List α}
    {first : α} {rest : List α} (heq : l.filter p = above ++ (first :: rest) ++ below)
    (hp : ∀ a, key ((first :: rest).getLast (List.cons_ne_nil _ _)) ≤ key a →
      key a ≤ key first → p a = true) :
    l.filter (fun a =>
      decide (key ((first :: rest).getLast (List.cons_ne_nil _ _)) ≤ key a) &&
        decide (key a ≤ key first)) = first :: rest := by
  have hrun := h.filter_between_eq heq
  rw [List.filter_filter] at hrun
  refine Eq.trans (List.filter_congr fun a _ => ?_) hrun
  rw [Bool.eq_iff_iff]
  simp only [Bool.and_eq_true, decide_eq_true_eq]
  exact ⟨fun hk => ⟨hk, hp a hk.1 hk.2⟩, fun hk => hk.1⟩

end Descending

/-! ## The place of a key -/

/-- Binary search for the first index in `[lo, hi)` that is not above. -/
def insertPoint (above : ℕ → Bool) (lo hi : ℕ) : ℕ :=
  if lo < hi then
    let mid := (lo + hi) / 2
    if above mid then insertPoint above (mid + 1) hi else insertPoint above lo mid
  else lo
termination_by hi - lo

/-- What the search keeps: below `lo` all is above, from `hi` on nothing
is. -/
structure Splits (above : ℕ → Bool) (lo hi : ℕ) : Prop where
  le : lo ≤ hi
  below : ∀ i < lo, above i = true
  beyond : ∀ i, hi ≤ i → above i = false

theorem insertPoint_splits {above : ℕ → Bool} (hmono : ∀ i j, i ≤ j → above j → above i)
    {lo hi : ℕ} (h : Splits above lo hi) :
    Splits above (insertPoint above lo hi) (insertPoint above lo hi) := by
  fun_induction insertPoint above lo hi with
  | case1 lo hi hlt mid hmid ih =>
    have hm : lo ≤ mid ∧ mid < hi := by omega
    refine ih ⟨by omega, fun i hi' => ?_, h.beyond⟩
    exact hmono i mid (by omega) hmid
  | case2 lo hi hlt mid hmid ih =>
    have hm : lo ≤ mid ∧ mid < hi := by omega
    refine ih ⟨by omega, h.below, fun i hi' => ?_⟩
    by_contra habove
    exact hmid (hmono mid i hi' (by simpa using habove))
  | case3 lo hi hge =>
    obtain rfl : hi = lo := le_antisymm (not_lt.mp hge) h.le
    exact h

/-! ## Insertion -/

variable (key : α → κ)

/-- Whether the item at an index is above a key. -/
def aboveAt (l : List α) (k : κ) (i : ℕ) : Bool :=
  match l[i]? with
  | some x => decide (k < key x)
  | none => false

/-- Put an item in at its place, replacing the item of its key. -/
def insertDesc (l : List α) (e : α) : List α :=
  let lo := insertPoint (aboveAt key l (key e)) 0 l.length
  match l[lo]? with
  | some x => if key x = key e then l.set lo e else l.take lo ++ e :: l.drop lo
  | none => l.take lo ++ e :: l.drop lo

variable {key} {l : List α}

/-- The insertion point cuts a descending list in the items above the key
and the others. -/
theorem insertPoint_cut (h : Descending key l) (k : κ) :
    (∀ x ∈ l.take (insertPoint (aboveAt key l k) 0 l.length), k < key x) ∧
    (∀ x ∈ l.drop (insertPoint (aboveAt key l k) 0 l.length), key x ≤ k) := by
  have hmono : ∀ i j, i ≤ j → aboveAt key l k j → aboveAt key l k i := by
    intro i j hij hj
    rcases Nat.eq_or_lt_of_le hij with rfl | hlt
    · exact hj
    · unfold aboveAt at hj ⊢
      split at hj
      · rename_i y hy
        obtain ⟨hjl, rfl⟩ := List.getElem?_eq_some_iff.mp hy
        have hil : i < l.length := hlt.trans hjl
        rw [List.getElem?_eq_getElem hil]
        have hdesc : key l[j] < key l[i] := List.pairwise_iff_getElem.mp h i j hil hjl hlt
        simp only [decide_eq_true_eq] at hj ⊢
        exact hj.trans hdesc
      · cases hj
  have hstart : Splits (aboveAt key l k) 0 l.length :=
    ⟨Nat.zero_le _, fun i hi => absurd hi (Nat.not_lt_zero i), fun i hi => by
      unfold aboveAt
      rw [List.getElem?_eq_none hi]⟩
  have hsplits := insertPoint_splits hmono hstart
  generalize insertPoint (aboveAt key l k) 0 l.length = lo at hsplits
  constructor
  · intro x hx
    obtain ⟨i, hi, rfl⟩ := List.mem_take_iff_getElem.mp hx
    have habove := hsplits.below i (by omega)
    unfold aboveAt at habove
    rw [List.getElem?_eq_getElem (by omega)] at habove
    simpa using habove
  · intro x hx
    obtain ⟨i, hi, rfl⟩ := List.mem_drop_iff_getElem.mp hx
    have habove := hsplits.beyond (lo + i) (Nat.le_add_right lo i)
    unfold aboveAt at habove
    rw [List.getElem?_eq_getElem (by omega)] at habove
    simpa using habove

/-- The items of a list after an insertion: what is above, the item, and
what is left of the rest once the item of its key is gone. -/
theorem insertDesc_eq (h : Descending key l) (e : α) :
    ∃ above below, l = above ++ below ∧ (∀ x ∈ above, key e < key x) ∧
      (∀ x ∈ below, key x ≤ key e) ∧
      insertDesc key l e = above ++ e :: below.filter fun x => decide (key x ≠ key e) := by
  obtain ⟨habove, hbelow⟩ := insertPoint_cut h (key e)
  generalize hlo : insertPoint (aboveAt key l (key e)) 0 l.length = lo at habove hbelow
  refine ⟨l.take lo, l.drop lo, (List.take_append_drop lo l).symm, habove, hbelow, ?_⟩
  have hunfold : insertDesc key l e =
      match l[lo]? with
      | some x => if key x = key e then l.set lo e else l.take lo ++ e :: l.drop lo
      | none => l.take lo ++ e :: l.drop lo := by rw [insertDesc, hlo]
  rw [hunfold]
  cases hat : l[lo]? with
  | none =>
    have hlen : l.length ≤ lo := List.getElem?_eq_none_iff.mp hat
    rw [List.drop_eq_nil_of_le hlen]
    rfl
  | some x =>
    obtain ⟨hlt, hx⟩ := List.getElem?_eq_some_iff.mp hat
    have hdrop : l.drop lo = x :: l.drop (lo + 1) := by
      rw [← hx]
      exact List.drop_eq_getElem_cons hlt
    -- behind the first of the rest, every key is smaller
    have hrest : ∀ y ∈ l.drop (lo + 1), key y < key x := by
      have hpair := h.sublist (List.drop_sublist lo l)
      rw [hdrop] at hpair
      exact (List.pairwise_cons.mp hpair).1
    have hle : key x ≤ key e := hbelow x (by rw [hdrop]; exact List.mem_cons_self)
    have hkeep : (l.drop (lo + 1)).filter (fun y => decide (key y ≠ key e)) = l.drop (lo + 1) :=
      List.filter_eq_self.mpr fun y hy =>
        decide_eq_true (ne_of_lt (lt_of_lt_of_le (hrest y hy) hle))
    simp only
    split
    · rename_i hkey
      rw [List.set_eq_take_append_cons_drop, if_pos hlt, hdrop,
        List.filter_cons_of_neg (by simp [hkey]), hkeep]
    · rename_i hkey
      rw [hdrop, List.filter_cons_of_pos (by simp [hkey]), hkeep]

/-- **One insertion**: the list stays descending, and holds the item and
the others of other keys. -/
theorem insertDesc_spec (h : Descending key l) (e : α) :
    Descending key (insertDesc key l e) ∧
      ∀ x, x ∈ insertDesc key l e ↔ x = e ∨ (x ∈ l ∧ key x ≠ key e) := by
  obtain ⟨above, below, rfl, habove, hbelow, heq⟩ := insertDesc_eq h e
  obtain ⟨ha, hb, hab⟩ := List.pairwise_append.mp h
  rw [heq]
  constructor
  · refine Descending.append ha (List.pairwise_cons.mpr ⟨?_, Descending.filter hb _⟩) ?_
    · intro x hx
      obtain ⟨hx, hne⟩ := List.mem_filter.mp hx
      exact lt_of_le_of_ne (hbelow x hx) (of_decide_eq_true hne)
    · intro a haa b hbb
      rcases List.mem_cons.mp hbb with rfl | hbb
      · exact habove a haa
      · exact hab a haa b (List.mem_of_mem_filter hbb)
  · intro x
    have hne : x ∈ above → key x ≠ key e := fun hx => ne_of_gt (habove x hx)
    simp only [List.mem_append, List.mem_cons, List.mem_filter, decide_eq_true_eq]
    tauto

/-- **Insertions one after the other** leave the last item of every key. -/
theorem foldl_insertDesc (h : Descending key l) (incoming : List α) :
    Descending key (incoming.foldl (insertDesc key) l) ∧
      ∀ x, x ∈ incoming.foldl (insertDesc key) l ↔
        (OrdMap.index key (l ++ incoming)).get? (key x) = some x := by
  induction incoming using List.reverseRecOn with
  | nil =>
    refine ⟨h, fun x => ?_⟩
    rw [List.append_nil, List.foldl_nil,
      OrdMap.get?_index_eq_some fun a ha b hb hk => h.eq_of_key ha hb hk]
    exact ⟨fun hx => ⟨hx, rfl⟩, fun hx => hx.1⟩
  | append_singleton incoming e ih =>
    obtain ⟨hd, hmem⟩ := ih
    obtain ⟨hd', hmem'⟩ := insertDesc_spec hd e
    rw [List.foldl_append, List.foldl_cons, List.foldl_nil]
    refine ⟨hd', fun x => ?_⟩
    rw [hmem', hmem, ← List.append_assoc, OrdMap.get?_index, OrdMap.get?_index, List.filter_append]
    by_cases hk : key x = key e
    · simp [hk, eq_comm]
    · have hne : x ≠ e := fun heq => hk (congrArg key heq)
      simp [hk, hne, Ne.symm hk]

/-! ## The naive union -/

variable (key) in
/-- Every key's last item, sorted downwards. -/
def newestByKey (l : List α) : List α :=
  (OrdMap.index key l).values.mergeSort fun a b => decide (key b ≤ key a)

theorem index_values_get? {l : List α} {x : α} :
    x ∈ (OrdMap.index key l).values ↔ (OrdMap.index key l).get? (key x) = some x := by
  rw [OrdMap.mem_values_iff]
  constructor
  · rintro ⟨k, hk⟩
    have hkey : key x = k := by
      rw [OrdMap.get?_index] at hk
      exact of_decide_eq_true (List.mem_filter.mp (List.mem_of_getLast? hk)).2
    rw [hkey]
    exact hk
  · exact fun h => ⟨_, h⟩

theorem newestByKey_descending (l : List α) : Descending key (newestByKey key l) := by
  have hsorted : (newestByKey key l).Pairwise fun a b => key b ≤ key a := by
    have h := @List.pairwise_mergeSort _ (fun a b => decide (key b ≤ key a))
      (fun a b c hab hbc => by
        simp only [decide_eq_true_eq] at hab hbc ⊢
        exact hbc.trans hab)
      (fun a b => by
        simp only [Bool.or_eq_true, decide_eq_true_eq]
        exact le_total _ _) (OrdMap.index key l).values
    exact h.imp fun hab => of_decide_eq_true hab
  -- distinct values of the index have distinct keys
  have hnodup : ((OrdMap.index key l).values.map key).Nodup := by
    have hkeys : (OrdMap.index key l).values.map key = (OrdMap.index key l).entries.map Prod.fst := by
      rw [OrdMap.values, List.map_map]
      refine List.map_congr_left ?_
      rintro ⟨k, x⟩ hb
      rw [OrdMap.mem_entries_iff, OrdMap.get?_index] at hb
      exact of_decide_eq_true (List.mem_filter.mp (List.mem_of_getLast? hb)).2
    rw [hkeys]
    exact (OrdMap.index key l).nodup
  have hne : (newestByKey key l).Pairwise fun a b => key a ≠ key b := by
    refine List.pairwise_map.mp ?_
    exact ((List.mergeSort_perm _ _).map key).nodup_iff.mpr hnodup
  exact List.Pairwise.imp₂ (fun a b hab hne' => lt_of_le_of_ne hab (Ne.symm hne')) hsorted hne

/-- **Inserting is sorting the union.** -/
theorem foldl_insertDesc_eq (h : Descending key l) (incoming : List α) :
    incoming.foldl (insertDesc key) l = newestByKey key (l ++ incoming) := by
  obtain ⟨hd, hmem⟩ := foldl_insertDesc h incoming
  refine hd.ext (newestByKey_descending _) fun x => ?_
  rw [hmem, newestByKey, (List.mergeSort_perm _ _).mem_iff, index_values_get?]

end SymphonyBoard
