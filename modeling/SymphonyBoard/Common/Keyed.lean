import SymphonyBoard.Common.OrdMap
/-!
# The first and the last of each key

What a list keeps when one item of each key is kept: the first
(`firstOfEach`) or the last (`lastOfEach`), and when such a cut loses none
of the items one is looking for. A map built by plain bindings holds the
last of each key; one whose later bindings leave alone what is looked at
shows the first.
-/

namespace SymphonyBoard

section

variable {α K : Type} [DecidableEq K] (key : α → K)

/-- The first item of each key, in order. -/
def firstOfEach : List α → List α
  | [] => []
  | a :: l => a :: (firstOfEach l).filter fun b => key b ≠ key a

/-- The last item of each key, in order. -/
def lastOfEach : List α → List α
  | [] => []
  | a :: l => if key a ∈ l.map key then lastOfEach l else a :: lastOfEach l

variable {key}

/-- The first of each key is the first under its key. -/
theorem head?_filter_of_mem_firstOfEach {l : List α} {x : α} (h : x ∈ firstOfEach key l) :
    (l.filter fun y => key y = key x).head? = some x := by
  induction l with
  | nil => cases h
  | cons a l ih =>
    rw [firstOfEach] at h
    rcases List.mem_cons.mp h with rfl | h
    · rw [List.filter_cons_of_pos (by simp)]
      rfl
    · obtain ⟨hx, hne⟩ := List.mem_filter.mp h
      have hne : ¬key a = key x := fun heq => of_decide_eq_true hne heq.symm
      rw [List.filter_cons_of_neg (by simpa using hne)]
      exact ih hx

theorem firstOfEach_sublist (l : List α) : (firstOfEach key l).Sublist l := by
  induction l with
  | nil => exact .slnil
  | cons a l ih => exact (List.filter_sublist.trans ih).cons_cons a

theorem lastOfEach_sublist (l : List α) : (lastOfEach key l).Sublist l := by
  induction l with
  | nil => exact .slnil
  | cons a l ih =>
    rw [lastOfEach]
    split
    · exact ih.cons a
    · exact ih.cons_cons a

theorem mem_map_firstOfEach {l : List α} {k : K} :
    k ∈ (firstOfEach key l).map key ↔ k ∈ l.map key := by
  refine ⟨fun h => (firstOfEach_sublist l).map key |>.subset h, fun h => ?_⟩
  induction l with
  | nil => exact h
  | cons a l ih =>
    rw [firstOfEach, List.map_cons, List.mem_cons]
    by_cases hk : k = key a
    · exact .inl hk
    · obtain ⟨b, hb, rfl⟩ := List.mem_map.mp (ih ((List.mem_cons.mp h).resolve_left hk))
      exact .inr (List.mem_map_of_mem (List.mem_filter.mpr ⟨hb, decide_eq_true hk⟩))

/-- The keys of the first items are the distinct keys. -/
theorem map_firstOfEach (l : List α) :
    (firstOfEach key l).map key = firstOfEach id (l.map key) := by
  induction l with
  | nil => rfl
  | cons a l ih =>
    rw [firstOfEach, List.map_cons, List.map_cons, firstOfEach, ← ih, List.filter_map]
    rfl

theorem nodup_firstOfEach (l : List α) : ((firstOfEach key l).map key).Nodup := by
  induction l with
  | nil => exact List.nodup_nil
  | cons a l ih =>
    rw [firstOfEach, List.map_cons, List.nodup_cons]
    refine ⟨fun hmem => ?_, ih.sublist (List.filter_sublist.map key)⟩
    obtain ⟨b, hb, hkey⟩ := List.mem_map.mp hmem
    exact of_decide_eq_true (List.mem_filter.mp hb).2 hkey

/-- Of distinct keys, at most one item has a given one. -/
theorem filter_key_of_nodup {l : List α} (h : (l.map key).Nodup) (k : K) :
    ∃ o : Option α, (l.filter fun a => key a = k) = o.toList := by
  induction l with
  | nil => exact ⟨none, rfl⟩
  | cons a l ih =>
    obtain ⟨ha, hl⟩ := List.nodup_cons.mp h
    by_cases hk : key a = k
    · have hrest : (l.filter fun b => key b = k) = [] := List.filter_eq_nil_iff.mpr fun b hb hb' =>
        have hmem : key b ∈ l.map key := List.mem_map_of_mem hb
        ha (hk.trans (of_decide_eq_true hb').symm ▸ hmem)
      refine ⟨some a, ?_⟩
      rw [List.filter_cons_of_pos (by simpa using hk), hrest]
      rfl
    · obtain ⟨o, ho⟩ := ih hl
      refine ⟨o, ?_⟩
      rw [List.filter_cons_of_neg (by simpa using hk), ho]

/-- Of distinct keys, each is its first item. -/
theorem firstOfEach_of_nodup {l : List α} (h : (l.map key).Nodup) : firstOfEach key l = l := by
  induction l with
  | nil => rfl
  | cons a l ih =>
    obtain ⟨ha, hl⟩ := List.nodup_cons.mp h
    rw [firstOfEach, ih hl]
    refine congrArg (a :: ·) (List.filter_eq_self.mpr fun b hb => ?_)
    have hmem : key b ∈ l.map key := List.mem_map_of_mem hb
    exact decide_eq_true fun hkey => ha (hkey ▸ hmem)

theorem firstOfEach_concat (l : List α) (a : α) :
    firstOfEach key (l ++ [a]) =
      if key a ∈ l.map key then firstOfEach key l else firstOfEach key l ++ [a] := by
  induction l with
  | nil => rfl
  | cons b l ih =>
    rw [List.cons_append, firstOfEach, ih, List.map_cons, firstOfEach]
    by_cases hb : key a = key b
    · have hmem : key a ∈ key b :: l.map key := hb ▸ List.mem_cons_self
      rw [if_pos hmem]
      split
      · rfl
      · simp [hb]
    · by_cases hl : key a ∈ l.map key
      · rw [if_pos hl, if_pos (List.mem_cons_of_mem _ hl)]
      · rw [if_neg hl, if_neg (by simpa [hb] using hl)]
        simp [hb]

theorem lastOfEach_concat (l : List α) (a : α) :
    lastOfEach key (l ++ [a]) = ((lastOfEach key l).filter fun b => key b ≠ key a) ++ [a] := by
  induction l with
  | nil => rfl
  | cons b l ih =>
    rw [List.cons_append, lastOfEach, ih, lastOfEach]
    by_cases hb : key b = key a
    · rw [if_pos (by simp [hb])]
      split
      · rfl
      · simp [hb]
    · by_cases hl : key b ∈ l.map key
      · rw [if_pos hl, if_pos (by simp [hl])]
      · rw [if_neg hl, if_neg (by simpa [hb] using hl)]
        simp [hb]

/-- **No item one looks for is lost to a later one** exactly when none
shares its key with a later item. -/
theorem filter_lastOfEach_eq_iff (p : α → Bool) (l : List α) :
    (lastOfEach key l).filter p = l.filter p ↔
      l.Pairwise fun a b => p a → key a ≠ key b := by
  induction l with
  | nil => simp [lastOfEach]
  | cons a l ih =>
    rw [List.pairwise_cons, ← ih, lastOfEach]
    by_cases hp : p a
    · split
      · rename_i hlater
        -- the item is gone, so the list is shorter
        obtain ⟨b, hb, hkey⟩ := List.mem_map.mp hlater
        have hshort := ((@lastOfEach_sublist _ _ _ key l).filter p).length_le
        refine iff_of_false (fun heq => ?_) fun h => h.1 b hb hp hkey.symm
        have hlen := congrArg List.length heq
        rw [List.filter_cons_of_pos hp, List.length_cons] at hlen
        omega
      · rename_i hlast
        rw [List.filter_cons_of_pos hp, List.filter_cons_of_pos hp, List.cons.injEq]
        refine ⟨fun h => ⟨fun b hb _ hkey => hlast ?_, h.2⟩, fun h => ⟨rfl, h.2⟩⟩
        exact hkey ▸ List.mem_map_of_mem hb
    · have hdrop : (if key a ∈ l.map key then lastOfEach key l else a :: lastOfEach key l).filter p
          = (lastOfEach key l).filter p := by
        split
        · rfl
        · exact List.filter_cons_of_neg hp
      rw [hdrop, List.filter_cons_of_neg hp]
      exact ⟨fun h => ⟨fun _ _ h' => absurd h' hp, h⟩, And.right⟩

/-- **No item one looks for is lost to an earlier one** exactly when none
shares its key with an earlier item. -/
theorem filter_firstOfEach_eq_iff (p : α → Bool) (l : List α) :
    (firstOfEach key l).filter p = l.filter p ↔
      l.Pairwise fun a b => p b → key a ≠ key b := by
  induction l using List.reverseRecOn with
  | nil => simp [firstOfEach]
  | append_singleton l a ih =>
    rw [List.pairwise_append, ← ih, firstOfEach_concat, List.filter_append]
    simp only [List.pairwise_singleton, true_and, List.mem_singleton, forall_eq]
    by_cases hp : p a
    · split
      · rename_i hearlier
        obtain ⟨b, hb, hkey⟩ := List.mem_map.mp hearlier
        have hshort := ((@firstOfEach_sublist _ _ _ key l).filter p).length_le
        refine iff_of_false (fun heq => ?_) fun h => h.2 b hb hp hkey
        have hlen := congrArg List.length heq
        rw [List.filter_cons_of_pos hp, List.length_append, List.length_cons] at hlen
        omega
      · rename_i hfirst
        rw [List.filter_append, List.append_left_inj]
        refine ⟨fun h => ⟨h, fun b hb _ hkey => hfirst ?_⟩, And.left⟩
        exact hkey ▸ List.mem_map_of_mem hb
    · have hdrop : (if key a ∈ l.map key then firstOfEach key l
          else firstOfEach key l ++ [a]).filter p = (firstOfEach key l).filter p := by
        split
        · rfl
        · rw [List.filter_append, List.filter_cons_of_neg hp, List.filter_nil, List.append_nil]
      rw [hdrop, List.filter_cons_of_neg hp, List.filter_nil, List.append_nil]
      exact ⟨fun h => ⟨h, fun _ _ h' => absurd h' hp⟩, And.left⟩

end

namespace OrdMap

variable {α K V W : Type} [DecidableEq K]

theorem upsertEntry_perm {k : K} {f : Option V → V} {l : List (K × V)}
    (h : (l.map Prod.fst).Nodup) :
    (upsertEntry k f l).Perm (l.filter (fun b => b.1 ≠ k) ++ [(k, f (lookupEntry k l))]) := by
  induction l with
  | nil => exact .refl _
  | cons b l ih =>
    obtain ⟨kb, vb⟩ := b
    obtain ⟨hkb, hl⟩ := List.nodup_cons.mp h
    by_cases hk : kb = k
    · subst hk
      have hrest : (l.filter fun b => b.1 ≠ kb) = l := by
        refine List.filter_eq_self.mpr fun b hb => ?_
        have hmem : b.1 ∈ l.map Prod.fst := List.mem_map_of_mem hb
        exact decide_eq_true fun hkey => hkb (hkey ▸ hmem)
      rw [upsertEntry, if_pos rfl, lookupEntry, if_pos rfl,
        List.filter_cons_of_neg (by simp), hrest]
      exact (List.perm_append_singleton _ _).symm
    · rw [upsertEntry, if_neg hk, lookupEntry, if_neg hk, List.filter_cons_of_pos (by simpa using hk)]
      exact (ih hl).cons _

/-- **A map of plain bindings holds the last of each key.** -/
theorem entries_index_perm (key : α → K) (l : List α) :
    (index key l).entries.Perm ((lastOfEach key l).map fun a => (key a, a)) := by
  induction l using List.reverseRecOn with
  | nil => exact .nil
  | append_singleton l a ih =>
    have hset : (index key (l ++ [a])).entries =
        upsertEntry (key a) (fun _ => a) (index key l).entries := by
      rw [index, List.foldl_append]
      rfl
    have hfilter : ((lastOfEach key l).map fun a => (key a, a)).filter (fun b => b.1 ≠ key a) =
        ((lastOfEach key l).filter fun b => key b ≠ key a).map fun a => (key a, a) := by
      rw [List.filter_map]
      rfl
    rw [hset, lastOfEach_concat, List.map_append, ← hfilter]
    exact (upsertEntry_perm (index key l).nodup).trans ((ih.filter _).append_right _)

/-- Bindings that leave alone what is looked at show the first of each key. -/
theorem map_upsertEntry {view : V → W} {k : K} {f : Option V → V} {l : List (K × V)}
    (h : ∀ v, (k, v) ∈ l → view (f (some v)) = view v) :
    (upsertEntry k f l).map (fun b => (b.1, view b.2)) =
      if k ∈ l.map Prod.fst then l.map fun b => (b.1, view b.2)
      else (l.map fun b => (b.1, view b.2)) ++ [(k, view (f none))] := by
  induction l with
  | nil => simp [upsertEntry]
  | cons b l ih =>
    obtain ⟨kb, vb⟩ := b
    by_cases hk : kb = k
    · subst hk
      rw [upsertEntry, if_pos rfl, if_pos (by simp), List.map_cons, List.map_cons,
        h vb List.mem_cons_self]
    · rw [upsertEntry, if_neg hk, List.map_cons, ih fun v hv => h v (List.mem_cons_of_mem _ hv)]
      by_cases hmem : k ∈ l.map Prod.fst
      · have hmem' : k ∈ ((kb, vb) :: l).map Prod.fst := List.mem_cons_of_mem _ hmem
        rw [if_pos hmem, if_pos hmem', List.map_cons]
      · have hmem' : k ∉ ((kb, vb) :: l).map Prod.fst := by
          rw [List.map_cons, List.mem_cons, not_or]
          exact ⟨Ne.symm hk, hmem⟩
        rw [if_neg hmem, if_neg hmem', List.map_cons, List.cons_append]

/-- What every binding keeps to, a loop of upserts keeps to. -/
theorem forall_entries_foldl_upsert {P : K → V → Prop} {key : α → K} {f : α → Option V → V}
    (h : ∀ x o, (∀ v ∈ o, P (key x) v) → P (key x) (f x o)) (l : List α) (m : OrdMap K V)
    (hm : ∀ b ∈ m.entries, P b.1 b.2) :
    ∀ b ∈ (l.foldl (fun m x => m.upsert (key x) (f x)) m).entries, P b.1 b.2 := by
  induction l generalizing m with
  | nil => exact hm
  | cons x l ih =>
    refine ih _ fun b hb => ?_
    have hget := mem_entries_iff.mp hb
    rw [get?_upsert] at hget
    by_cases hk : key x = b.1
    · rw [if_pos hk, Option.some.injEq] at hget
      rw [← hget, ← hk]
      exact h x _ fun v hv => hm (key x, v) (mem_entries_iff.mpr hv)
    · rw [if_neg hk] at hget
      exact hm b (mem_entries_iff.mpr hget)

/-- **A loop of upserts from the empty map binds each key once**, in the
order the keys came. -/
theorem keys_foldl_upsert (key : α → K) (f : α → Option V → V) (l : List α) :
    (l.foldl (fun m x => m.upsert (key x) (f x)) empty).entries.map Prod.fst =
      (firstOfEach key l).map key := by
  induction l using List.reverseRecOn with
  | nil => rfl
  | append_singleton l x ih =>
    set m := l.foldl (fun m x => m.upsert (key x) (f x)) empty with hm
    have hmem : key x ∈ m.entries.map Prod.fst ↔ key x ∈ l.map key := by
      rw [ih, mem_map_firstOfEach]
    have hkeys : (m.upsert (key x) (f x)).entries.map Prod.fst =
        if key x ∈ m.entries.map Prod.fst then m.entries.map Prod.fst
        else m.entries.map Prod.fst ++ [key x] := by
      have h := congrArg (List.map Prod.fst)
        (@map_upsertEntry _ _ _ _ (fun _ : V => ()) (key x) (f x) m.entries fun _ _ => rfl)
      rw [List.map_map] at h
      refine h.trans ?_
      split <;> simp
    rw [List.foldl_append, List.foldl_cons, List.foldl_nil, hkeys, ih, firstOfEach_concat]
    by_cases hx : key x ∈ l.map key
    · rw [if_pos (mem_map_firstOfEach.mpr hx), if_pos hx]
    · rw [if_neg (mt mem_map_firstOfEach.mp hx), if_neg hx, List.map_append]
      rfl

omit [DecidableEq K] in
/-- Bindings of the same keys that agree are the same. -/
theorem eq_of_map_fst_eq {l l' : List (K × V)} (hkeys : l.map Prod.fst = l'.map Prod.fst)
    (h : ∀ b ∈ l, ∀ c ∈ l', b.1 = c.1 → b = c) : l = l' := by
  induction l generalizing l' with
  | nil => exact (List.map_eq_nil_iff.mp hkeys.symm).symm
  | cons b l ih =>
    cases l' with
    | nil => cases hkeys
    | cons c l' =>
      obtain ⟨hbc, hrest⟩ := List.cons.inj hkeys
      rw [h b List.mem_cons_self c List.mem_cons_self hbc,
        ih hrest fun b hb c hc => h b (List.mem_cons_of_mem _ hb) c (List.mem_cons_of_mem _ hc)]

/-- And it binds them to what they come to there. -/
theorem entries_foldl_upsert {key : α → K} {f : α → Option V → V} {l : List α} {v : α → V}
    (hv : ∀ x ∈ firstOfEach key l,
      (l.foldl (fun m x => m.upsert (key x) (f x)) empty).get? (key x) = some (v x)) :
    (l.foldl (fun m x => m.upsert (key x) (f x)) empty).entries =
      (firstOfEach key l).map fun x => (key x, v x) := by
  refine eq_of_map_fst_eq ?_ fun b hb c hc hkey => ?_
  · rw [keys_foldl_upsert, List.map_map]
    rfl
  · obtain ⟨x, hx, rfl⟩ := List.mem_map.mp hc
    have hget := mem_entries_iff.mp hb
    rw [hkey, hv x hx] at hget
    exact Prod.ext hkey (Option.some.inj hget).symm

end OrdMap

end SymphonyBoard
