import SymphonyBoard.Sources.TokenPool
/-!
# Which token is picked

Picking reads the budgets and forgets the windows that are over on the way;
`Refreshed` is all it does to them. A token that is picked is available then,
none is picked only where none is available, and among the budget-aware ones
it is one that has most left.
-/

namespace SymphonyBoard

/-! ## Windows forgotten on the way -/

section Refreshed

variable {s : AuthBudgetState} {b b' b'' : AuthBudgets} {now : ℚ}

@[simp] theorem inFlight_resetExpired (s : AuthBudgetState) (now : ℚ) :
    (s.resetExpired now).inFlight = s.inFlight := by
  unfold AuthBudgetState.resetExpired
  split
  · rfl
  · split
    · rfl
    · rfl

@[simp] theorem resetExpired_resetExpired (s : AuthBudgetState) (now : ℚ) :
    (s.resetExpired now).resetExpired now = s.resetExpired now := by
  cases hreset : s.resetAtMs with
  | none => simp only [AuthBudgetState.resetExpired, hreset]
  | some reset =>
    by_cases hopen : now < reset
    · simp only [AuthBudgetState.resetExpired, hreset, if_pos hopen]
    · simp only [AuthBudgetState.resetExpired, hreset, if_neg hopen, AuthBudgetState.unknown]

/-- Some of the windows that are over have been forgotten. -/
def Refreshed (now : ℚ) (b b' : AuthBudgets) : Prop :=
  ∀ key, b' key = b key ∨ b' key = (b key).resetExpired now

theorem Refreshed.refl (now : ℚ) (b : AuthBudgets) : Refreshed now b b := fun _ => Or.inl rfl

/-- What is left of a window after its end is the same. -/
theorem Refreshed.resetExpired_eq (h : Refreshed now b b') (key : String) :
    (b' key).resetExpired now = (b key).resetExpired now := by
  rcases h key with h | h
  · rw [h]
  · rw [h, resetExpired_resetExpired]

theorem Refreshed.inFlight_eq (h : Refreshed now b b') (key : String) :
    (b' key).inFlight = (b key).inFlight := by
  rcases h key with h | h
  · rw [h]
  · rw [h, inFlight_resetExpired]

theorem Refreshed.trans (h : Refreshed now b b') (h' : Refreshed now b' b'') :
    Refreshed now b b'' := by
  intro key
  rcases h' key with h' | h'
  · rw [h']
    exact h key
  · rw [h', h.resetExpired_eq]
    exact Or.inr rfl

theorem refreshed_update (now : ℚ) (b : AuthBudgets) (key : String) :
    Refreshed now b (b.update key (·.resetExpired now)) := by
  intro k
  unfold AuthBudgets.update
  split
  · exact Or.inr rfl
  · exact Or.inl rfl

end Refreshed

/-! ## What is available -/

namespace TokenClient

variable {c : TokenClient} {b b' b₀ : AuthBudgets} {now : ℚ} {idx : ℕ} {places seen : List ℕ}
variable {candidate : ℕ → Bool}

/-- Neither the client nor the process has the token blocked. -/
def Available (c : TokenClient) (b : AuthBudgets) (now : ℚ) (idx : ℕ) : Prop :=
  (c.blockedUntil.get? idx).getD 0 ≤ now ∧ (c.isBudgetAware idx = true →
    ((b (c.budgetKey idx)).resetExpired now).blockedUntilMs.getD 0 ≤ now)

/-- What is expected to remain of a token, if anything is known. -/
def scoreAt (c : TokenClient) (b : AuthBudgets) (now : ℚ) (idx : ℕ) : Option ℚ :=
  let state := (b (c.budgetKey idx)).resetExpired now
  state.remaining.map state.score

theorem available_iff (h : Refreshed now b b') :
    c.Available b' now idx ↔ c.Available b now idx := by
  unfold Available
  rw [h.resetExpired_eq]

theorem tokenAvailable_spec (c : TokenClient) (b : AuthBudgets) (idx : ℕ) (now : ℚ) :
    Refreshed now b (c.tokenAvailable b idx now).2 ∧
      ((c.tokenAvailable b idx now).1 = true ↔ c.Available b now idx) := by
  unfold tokenAvailable Available
  split
  · rename_i hblocked
    refine ⟨Refreshed.refl now b, iff_of_false Bool.false_ne_true fun h => ?_⟩
    exact absurd h.1 (not_le.mpr hblocked)
  · rename_i hfree
    split
    · rename_i haware
      refine ⟨Refreshed.refl now b, iff_of_true rfl ⟨not_lt.mp hfree, fun h => ?_⟩⟩
      rw [haware] at h
      cases h
    · rename_i haware
      refine ⟨refreshed_update now b _, ?_⟩
      have hstate : b.update (c.budgetKey idx) (·.resetExpired now) (c.budgetKey idx) =
          (b (c.budgetKey idx)).resetExpired now := if_pos rfl
      simp only [hstate, decide_eq_true_eq]
      exact ⟨fun h => ⟨not_lt.mp hfree, fun _ => h⟩,
        fun h => h.2 (Bool.eq_true_of_not_eq_false haware)⟩

/-! ## The first that is available -/

theorem firstAvailable_spec (c : TokenClient) (candidate : ℕ → Bool) (now : ℚ) (places : List ℕ)
    (b : AuthBudgets) :
    Refreshed now b (c.firstAvailable candidate now places b).2 ∧
      (∀ idx, (c.firstAvailable candidate now places b).1 = some idx →
        idx ∈ places ∧ candidate idx = true ∧ c.Available b now idx) ∧
      ((c.firstAvailable candidate now places b).1 = none →
        ∀ idx ∈ places, candidate idx = true → ¬ c.Available b now idx) := by
  induction places generalizing b with
  | nil =>
    refine ⟨Refreshed.refl now b, ?_, fun _ idx hidx => absurd hidx List.not_mem_nil⟩
    rintro idx ⟨⟩
  | cons i places ih =>
    obtain ⟨hrefreshed, havailable⟩ := tokenAvailable_spec c b i now
    unfold firstAvailable
    split
    · rename_i hcandidate
      split
      · rename_i budgets hfound
        rw [hfound] at hrefreshed havailable
        refine ⟨hrefreshed, fun idx h => ?_, fun h => by cases h⟩
        obtain rfl := Option.some.inj h
        exact ⟨List.mem_cons_self, hcandidate, havailable.mp rfl⟩
      · rename_i budgets hfound
        rw [hfound] at hrefreshed havailable
        obtain ⟨hmore, hsome, hnone⟩ := ih budgets
        refine ⟨hrefreshed.trans hmore, fun idx h => ?_, fun h idx hidx hkept => ?_⟩
        · obtain ⟨hmem, hkept, hfree⟩ := hsome idx h
          exact ⟨List.mem_cons_of_mem i hmem, hkept, (available_iff hrefreshed).mp hfree⟩
        · rcases List.mem_cons.mp hidx with rfl | hidx
          · exact fun hfree => Bool.false_ne_true (havailable.mpr hfree)
          · exact fun hfree => hnone h idx hidx hkept ((available_iff hrefreshed).mpr hfree)
    · rename_i hcandidate
      obtain ⟨hmore, hsome, hnone⟩ := ih b
      refine ⟨hmore, fun idx h => ?_, fun h idx hidx hkept => ?_⟩
      · obtain ⟨hmem, hkept, hfree⟩ := hsome idx h
        exact ⟨List.mem_cons_of_mem i hmem, hkept, hfree⟩
      · rcases List.mem_cons.mp hidx with rfl | hidx
        · exact absurd hkept hcandidate
        · exact hnone h idx hidx hkept

/-! ## The best of the budget-aware ones -/

/-- A place that may be picked. -/
def Pickable (c : TokenClient) (b : AuthBudgets) (candidate : ℕ → Bool) (now : ℚ) (idx : ℕ) : Prop :=
  c.isBudgetAware idx = true ∧ candidate idx = true ∧ c.Available b now idx

/-- Of these places, this is the pick. -/
structure Picks (c : TokenClient) (b : AuthBudgets) (candidate : ℕ → Bool) (now : ℚ)
    (places : List ℕ) (r : Option ℕ) : Prop where
  nothing : r = none → ∀ idx ∈ places, ¬ c.Pickable b candidate now idx
  picked : ∀ idx, r = some idx → idx ∈ places ∧ c.Pickable b candidate now idx
  best : ∀ idx s, r = some idx → c.scoreAt b now idx = some s → ∀ i ∈ places,
    c.Pickable b candidate now i → ∃ s', c.scoreAt b now i = some s' ∧ s' ≤ s

/-- The places seen, and the best of them. -/
structure Best.Sums (c : TokenClient) (b : AuthBudgets) (candidate : ℕ → Bool) (now : ℚ)
    (seen : List ℕ) (best : Option Best) : Prop where
  nothing : best = none → ∀ idx ∈ seen, ¬ c.Pickable b candidate now idx
  picked : ∀ x, best = some x → x.idx ∈ seen ∧ c.Pickable b candidate now x.idx ∧
    c.scoreAt b now x.idx = some x.score
  best : ∀ x, best = some x → ∀ i ∈ seen, c.Pickable b candidate now i →
    ∃ s', c.scoreAt b now i = some s' ∧ s' ≤ x.score

theorem Best.Sums.skip {best : Option Best} (h : Best.Sums c b candidate now seen best)
    (hidx : ¬ c.Pickable b candidate now idx) :
    Best.Sums c b candidate now (seen ++ [idx]) best where
  nothing hnone i hi := by
    rcases List.mem_append.mp hi with hi | hi
    · exact h.nothing hnone i hi
    · exact List.mem_singleton.mp hi ▸ hidx
  picked x hx := by
    obtain ⟨hmem, hrest⟩ := h.picked x hx
    exact ⟨List.mem_append_left _ hmem, hrest⟩
  best x hx i hi hpick := by
    rcases List.mem_append.mp hi with hi | hi
    · exact h.best x hx i hi hpick
    · exact absurd (List.mem_singleton.mp hi ▸ hpick) hidx

theorem isBeaten_le {best : Best} {score : ℚ} {used : Option ℚ}
    (h : best.isBeaten score used = true) : best.score ≤ score := by
  unfold Best.isBeaten at h
  rcases Bool.or_eq_true_iff.mp h with h | h
  · exact le_of_lt (of_decide_eq_true h)
  · exact le_of_eq (of_decide_eq_true (Bool.and_eq_true_iff.mp h).1)

theorem le_of_not_isBeaten {best : Best} {score : ℚ} {used : Option ℚ}
    (h : best.isBeaten score used = false) : score ≤ best.score := by
  unfold Best.isBeaten at h
  exact not_lt.mp (of_decide_eq_false (Bool.or_eq_false_iff.mp h).1)

/-- One place more is the best, or the best stays. -/
theorem Best.Sums.meet {best : Option Best} {score : ℚ} {used : Option ℚ}
    (h : Best.Sums c b candidate now seen best) (hidx : c.Pickable b candidate now idx)
    (hscore : c.scoreAt b now idx = some score) :
    Best.Sums c b candidate now (seen ++ [idx])
      (if best.all (·.isBeaten score used) then some ⟨idx, score, used⟩ else best) := by
  split
  · rename_i hbeaten
    refine ⟨fun hnone => absurd hnone (Option.some_ne_none _), ?_, ?_⟩
    · rintro x ⟨⟩
      exact ⟨List.mem_append_right _ (List.mem_singleton_self idx), hidx, hscore⟩
    · rintro x ⟨⟩ i hi hpick
      rcases List.mem_append.mp hi with hi | hi
      · cases hbest : best with
        | none => exact absurd hpick (h.nothing hbest i hi)
        | some y =>
          obtain ⟨s', hs', hle⟩ := h.best y hbest i hi hpick
          rw [hbest] at hbeaten
          exact ⟨s', hs', le_trans hle (isBeaten_le hbeaten)⟩
      · rw [List.mem_singleton.mp hi]
        exact ⟨score, hscore, le_refl score⟩
  · rename_i hstays
    cases hbest : best with
    | none =>
      rw [hbest] at hstays
      exact absurd rfl hstays
    | some y =>
      rw [hbest] at hstays
      have hle := le_of_not_isBeaten (Bool.eq_false_of_not_eq_true hstays)
      obtain ⟨hmem, hrest⟩ := h.picked y hbest
      refine ⟨fun hnone => absurd hnone (Option.some_ne_none _), ?_, ?_⟩
      · rintro x ⟨⟩
        exact ⟨List.mem_append_left _ hmem, hrest⟩
      · rintro x ⟨⟩ i hi hpick
        rcases List.mem_append.mp hi with hi | hi
        · exact h.best y hbest i hi hpick
        · rw [List.mem_singleton.mp hi]
          exact ⟨score, hscore, hle⟩

/-- **The loop picks the best of the places**, from wherever it stands. -/
theorem pickBudgetAware_spec {best : Option Best} (hb : Refreshed now b₀ b)
    (hbest : Best.Sums c b₀ candidate now seen best) :
    Refreshed now b₀ (c.pickBudgetAware candidate now places b best).2 ∧
      Picks c b₀ candidate now (seen ++ places)
        (c.pickBudgetAware candidate now places b best).1 := by
  induction places generalizing b best seen with
  | nil =>
    unfold pickBudgetAware
    rw [List.append_nil]
    refine ⟨hb, ⟨fun h => hbest.nothing (Option.map_eq_none_iff.mp h), ?_, ?_⟩⟩
    · intro idx h
      obtain ⟨x, hx, rfl⟩ := Option.map_eq_some_iff.mp h
      obtain ⟨hmem, hpick, -⟩ := hbest.picked x hx
      exact ⟨hmem, hpick⟩
    · intro idx s h hs
      obtain ⟨x, hx, rfl⟩ := Option.map_eq_some_iff.mp h
      obtain ⟨-, -, hscore⟩ := hbest.picked x hx
      obtain rfl := Option.some.inj (hscore.symm.trans hs)
      exact hbest.best x hx
  | cons i places ih =>
    have hmove : seen ++ i :: places = (seen ++ [i]) ++ places := by simp
    obtain ⟨hrefreshed, havailable⟩ := tokenAvailable_spec c b i now
    rw [available_iff hb] at havailable
    unfold pickBudgetAware
    rw [hmove]
    split
    · rename_i hkept
      obtain ⟨haware, hcandidate⟩ := Bool.and_eq_true_iff.mp hkept
      split
      · rename_i budgets hfound
        rw [hfound] at hrefreshed havailable
        refine ih (hb.trans hrefreshed) (hbest.skip fun hpick => ?_)
        exact Bool.false_ne_true (havailable.mpr hpick.2.2)
      · rename_i budgets hfound
        rw [hfound] at hrefreshed havailable
        have hpick : c.Pickable b₀ candidate now i := ⟨haware, hcandidate, havailable.mp rfl⟩
        have hfresh := (hb.trans hrefreshed).trans (refreshed_update now budgets (c.budgetKey i))
        have hstate : budgets.update (c.budgetKey i) (·.resetExpired now) (c.budgetKey i) =
            (b₀ (c.budgetKey i)).resetExpired now := by
          rw [← (hb.trans hrefreshed).resetExpired_eq]
          exact if_pos rfl
        simp only [hstate]
        split
        · -- a budget not yet known ends the search
          rename_i hunknown
          refine ⟨hfresh, fun h => absurd h (Option.some_ne_none i), ?_, ?_⟩
          · rintro idx ⟨⟩
            exact ⟨List.mem_append_left _ (List.mem_append_right _ (List.mem_singleton_self i)), hpick⟩
          · rintro idx s ⟨⟩ hs
            unfold scoreAt at hs
            simp only [hunknown, Option.map_none] at hs
            cases hs
        · rename_i remaining hknown
          refine ih hfresh (hbest.meet hpick ?_)
          unfold scoreAt
          simp only [hknown, Option.map_some]
    · rename_i hnot
      refine ih hb (hbest.skip fun hpick => hnot ?_)
      exact Bool.and_eq_true_iff.mpr ⟨hpick.1, hpick.2.1⟩

/-! ## The pool -/

theorem mem_placesFrom {start : ℕ} : idx ∈ c.placesFrom start ↔ idx < c.tokens.length := by
  unfold placesFrom
  rw [List.mem_map]
  constructor
  · rintro ⟨step, hstep, rfl⟩
    exact Nat.mod_lt _ (Nat.zero_lt_of_lt (List.mem_range.mp hstep))
  · intro h
    have hpos : 0 < c.tokens.length := Nat.zero_lt_of_lt h
    have hlt := Nat.mod_lt start hpos
    generalize c.tokens.length = n at h hpos hlt
    refine ⟨(idx + (n - start % n)) % n, List.mem_range.mpr (Nat.mod_lt _ hpos), ?_⟩
    rw [Nat.add_mod_mod, ← Nat.mod_add_mod, show start % n + (idx + (n - start % n)) = idx + n by omega,
      Nat.add_mod_right, Nat.mod_eq_of_lt h]

/-- Only the cursor moves. -/
def SamePool (c c' : TokenClient) : Prop := c' = { c with cursor := c'.cursor }

theorem samePool_refl (c : TokenClient) : SamePool c c := rfl

theorem selectBudgetAwareToken_spec (c : TokenClient) (candidate : ℕ → Bool) (now : ℚ)
    (b : AuthBudgets) :
    Refreshed now b (c.selectBudgetAwareToken candidate now b).2.1 ∧
      SamePool c (c.selectBudgetAwareToken candidate now b).2.2 ∧
      c.Picks b candidate now (c.placesFrom c.cursor)
        (c.selectBudgetAwareToken candidate now b).1 := by
  have hnone : Best.Sums c b candidate now [] none :=
    ⟨fun _ idx hidx => absurd hidx List.not_mem_nil, by rintro x ⟨⟩, by rintro x ⟨⟩⟩
  obtain ⟨hrefreshed, hpicks⟩ :=
    @pickBudgetAware_spec c b b now (c.placesFrom c.cursor) [] candidate none
      (Refreshed.refl now b) hnone
  rw [List.nil_append] at hpicks
  unfold selectBudgetAwareToken
  split
  · rename_i budgets hfound
    rw [hfound] at hrefreshed hpicks
    exact ⟨hrefreshed, samePool_refl c, hpicks⟩
  · rename_i idx budgets hfound
    rw [hfound] at hrefreshed hpicks
    exact ⟨hrefreshed, rfl, hpicks⟩

/-- Where nothing is picked, the cursor stays. -/
theorem eq_of_selectBudgetAwareToken {c' : TokenClient}
    (h : c.selectBudgetAwareToken candidate now b = (none, b', c')) : c' = c := by
  unfold selectBudgetAwareToken at h
  split at h
  · exact (Prod.mk.inj (Prod.mk.inj h).2).2.symm
  · cases (Prod.mk.inj h).1

/-- What a pick is: a token that may be used, if there is one, and a preferred
one, if there is one of those; where one is graded, it is a graded one, and
either nothing is known of its budget or it has most left. -/
structure PickedFrom (c : TokenClient) (b : AuthBudgets) (now : ℚ)
    (allowed preferred graded : ℕ → Prop) (r : Option ℕ) : Prop where
  nothing : r = none → ∀ idx < c.tokens.length, allowed idx → ¬ c.Available b now idx
  picked : ∀ idx, r = some idx → idx < c.tokens.length ∧ allowed idx ∧ c.Available b now idx
  preferred : ∀ idx, r = some idx → ∀ i < c.tokens.length, allowed i → preferred i →
    c.Available b now i → preferred idx
  best : ∀ idx, r = some idx → ∀ i < c.tokens.length, allowed i → graded i →
    c.Available b now i → graded idx ∧
      ∀ s, c.scoreAt b now idx = some s → ∃ s', c.scoreAt b now i = some s' ∧ s' ≤ s

/-- **The first token of a request** is a budget-aware one, if one is
available. -/
theorem selectAvailableToken_spec (c : TokenClient) (now : ℚ) (b : AuthBudgets) :
    Refreshed now b (c.selectAvailableToken now b).2.1 ∧
      SamePool c (c.selectAvailableToken now b).2.2 ∧
      c.PickedFrom b now (fun _ => True) (fun idx => c.isBudgetAware idx = true)
        (fun idx => c.isBudgetAware idx = true) (c.selectAvailableToken now b).1 := by
  obtain ⟨hrefreshed, hsame, hpicks⟩ := selectBudgetAwareToken_spec c (fun _ => true) now b
  unfold selectAvailableToken
  split
  · rename_i idx budgets c' hfound
    rw [hfound] at hrefreshed hsame hpicks
    obtain ⟨hmem, haware, -, hfree⟩ := hpicks.picked idx rfl
    refine ⟨hrefreshed, hsame, fun h => absurd h (Option.some_ne_none idx), ?_, ?_, ?_⟩
    · rintro i ⟨⟩
      exact ⟨mem_placesFrom.mp hmem, trivial, hfree⟩
    · rintro i ⟨⟩ - - - - -
      exact haware
    · rintro i ⟨⟩ j hj - hjaware hjfree
      exact ⟨haware, fun s hs =>
        hpicks.best idx s rfl hs j (mem_placesFrom.mpr hj) ⟨hjaware, rfl, hjfree⟩⟩
  · rename_i budgets c' hfound
    obtain rfl := eq_of_selectBudgetAwareToken hfound
    rw [hfound] at hrefreshed hsame hpicks
    have hnone := hpicks.nothing rfl
    obtain ⟨hmore, hsome, hfirst⟩ :=
      firstAvailable_spec c' (fun _ => true) now (List.range c'.tokens.length) budgets
    have hgraded : ∀ i < c'.tokens.length, c'.isBudgetAware i = true → ¬ c'.Available b now i :=
      fun i hi haware hfree => hnone i (mem_placesFrom.mpr hi) ⟨haware, rfl, hfree⟩
    refine ⟨hrefreshed.trans hmore, samePool_refl c', fun h idx hidx _ => ?_, fun idx h => ?_,
      fun idx h i hi _ haware hfree => absurd hfree (hgraded i hi haware),
      fun idx h i hi _ haware hfree => absurd hfree (hgraded i hi haware)⟩
    · rw [← available_iff hrefreshed]
      exact hfirst h idx (List.mem_range.mpr hidx) rfl
    · obtain ⟨hmem, -, hfree⟩ := hsome idx h
      exact ⟨List.mem_range.mp hmem, trivial, (available_iff hrefreshed).mp hfree⟩

/-- **The token to go on with** is one not tried yet, and a bot, if one is
available. -/
theorem nextAvailableToken_spec (c : TokenClient) (tried : List ℕ) (after : ℕ) (now : ℚ)
    (b : AuthBudgets) :
    Refreshed now b (c.nextAvailableToken tried after now b).2.1 ∧
      SamePool c (c.nextAvailableToken tried after now b).2.2 ∧
      c.PickedFrom b now (· ∉ tried) (fun idx => c.isBot idx = true)
        (fun idx => c.isBudgetAware idx = true ∧ c.isBot idx = true)
        (c.nextAvailableToken tried after now b).1 := by
  have hkept : ∀ idx, (decide (idx ∉ tried) && c.isBot idx) = true ↔
      idx ∉ tried ∧ c.isBot idx = true := fun idx => by
    rw [Bool.and_eq_true, decide_eq_true_eq]
  obtain ⟨hrefreshed, hsame, hpicks⟩ :=
    selectBudgetAwareToken_spec c (fun idx => decide (idx ∉ tried) && c.isBot idx) now b
  unfold nextAvailableToken
  simp only
  split
  · -- a budget-aware bot is picked
    rename_i idx budgets c' hfound
    rw [hfound] at hrefreshed hsame hpicks
    obtain ⟨hmem, haware, hcandidate, hfree⟩ := hpicks.picked idx rfl
    obtain ⟨huntried, hbot⟩ := (hkept idx).mp hcandidate
    refine ⟨hrefreshed, hsame, fun h => absurd h (Option.some_ne_none idx), ?_, ?_, ?_⟩
    · rintro i ⟨⟩
      exact ⟨mem_placesFrom.mp hmem, huntried, hfree⟩
    · rintro i ⟨⟩ - - - - -
      exact hbot
    · rintro i ⟨⟩ j hj hjuntried ⟨hjaware, hjbot⟩ hjfree
      exact ⟨⟨haware, hbot⟩, fun s hs => hpicks.best idx s rfl hs j (mem_placesFrom.mpr hj)
        ⟨hjaware, (hkept j).mpr ⟨hjuntried, hjbot⟩, hjfree⟩⟩
  · -- none is free: the bots in turn
    rename_i budgets c' hfound
    obtain rfl := eq_of_selectBudgetAwareToken hfound
    rw [hfound] at hrefreshed hsame hpicks
    have hnone := hpicks.nothing rfl
    have hgraded : ∀ i < c'.tokens.length, i ∉ tried →
        c'.isBudgetAware i = true ∧ c'.isBot i = true → ¬ c'.Available b now i :=
      fun i hi huntried hi' hfree => hnone i (mem_placesFrom.mpr hi)
        ⟨hi'.1, (hkept i).mpr ⟨huntried, hi'.2⟩, hfree⟩
    obtain ⟨hmore, hsome, hfirst⟩ := firstAvailable_spec c'
      (fun idx => decide (idx ∉ tried) && c'.isBot idx) now (c'.placesFrom (after + 1)) budgets
    split
    · rename_i idx budgets' hfound'
      rw [hfound'] at hmore hsome
      obtain ⟨hmem, hcandidate, hfree⟩ := hsome idx rfl
      obtain ⟨huntried, hbot⟩ := (hkept idx).mp hcandidate
      refine ⟨hrefreshed.trans hmore, samePool_refl c', fun h => absurd h (Option.some_ne_none idx),
        ?_, ?_, fun idx h i hi huntried hi' hfree => absurd hfree (hgraded i hi huntried hi')⟩
      · rintro i ⟨⟩
        exact ⟨mem_placesFrom.mp hmem, huntried, (available_iff hrefreshed).mp hfree⟩
      · rintro i ⟨⟩ - - - - -
        exact hbot
    · -- no bot is free: any token in turn
      rename_i budgets' hfound'
      rw [hfound'] at hmore hfirst
      have hbots : ∀ i < c'.tokens.length, i ∉ tried → c'.isBot i = true →
          ¬ c'.Available b now i := fun i hi huntried hbot => by
        rw [← available_iff hrefreshed]
        exact hfirst rfl i (mem_placesFrom.mpr hi) ((hkept i).mpr ⟨huntried, hbot⟩)
      obtain ⟨hlast, hsome', hfirst'⟩ := firstAvailable_spec c' (fun idx => decide (idx ∉ tried)) now
        (c'.placesFrom (after + 1)) budgets'
      have hall := hrefreshed.trans hmore
      refine ⟨hall.trans hlast, samePool_refl c', fun h idx hidx huntried => ?_, fun idx h => ?_,
        fun idx h i hi huntried hbot hfree => absurd hfree (hbots i hi huntried hbot),
        fun idx h i hi huntried hi' hfree => absurd hfree (hgraded i hi huntried hi')⟩
      · rw [← available_iff hall]
        exact hfirst' h idx (mem_placesFrom.mpr hidx) (decide_eq_true huntried)
      · obtain ⟨hmem, huntried, hfree⟩ := hsome' idx h
        exact ⟨mem_placesFrom.mp hmem, of_decide_eq_true huntried, (available_iff hall).mp hfree⟩

end TokenClient

end SymphonyBoard
