import Mathlib.Data.List.Perm.Subperm
import SymphonyBoard.Common.Run
import SymphonyBoard.Sources.TokenSelection
/-!
# The accounts of the token pool

Requests of all clients start, are limited, fail and succeed in any order.
In every world such a run leads to, what a budget has in flight is what waits
on its tokens, no request has tried a token twice (`run_accounts`), and every
pick was one that could be made then (`run_picksWell`). While a window lasts,
what is recorded to remain of it does not rise (`remaining_antitone`).
-/

namespace SymphonyBoard

/-! ## What is in flight -/

section InFlight

variable {c : TokenClient} {b : AuthBudgets} {idx : ℕ} {key : String}

theorem inFlight_learn (s : AuthBudgetState) (budget : GitHubRateBudget) :
    (s.learn budget).inFlight = s.inFlight := by
  unfold AuthBudgetState.learn
  split
  · rfl
  · rfl

theorem inFlight_done (s : AuthBudgetState) (budget : Option GitHubRateBudget) (now : ℚ) :
    (s.done budget now).inFlight = s.inFlight - 1 := by
  unfold AuthBudgetState.done
  cases budget with
  | none => exact inFlight_resetExpired _ now
  | some budget => exact (inFlight_learn _ budget).trans (inFlight_resetExpired _ now)

/-- The token at a place is accounted for under a key. -/
def TokenClient.Owes (c : TokenClient) (idx : ℕ) (key : String) : Bool :=
  c.isBudgetAware idx && decide (c.budgetKey idx = key)

theorem inFlight_start (c : TokenClient) (idx : ℕ) (b : AuthBudgets) (key : String) :
    (c.recordAuthAttemptStart idx b key).inFlight =
      (b key).inFlight + if c.Owes idx key then 1 else 0 := by
  unfold TokenClient.recordAuthAttemptStart TokenClient.Owes AuthBudgets.update
  by_cases haware : c.isBudgetAware idx = true
  · by_cases hkey : c.budgetKey idx = key
    · simp [haware, hkey]
    · simp [haware, hkey, Ne.symm hkey]
  · simp [haware]

theorem inFlight_recordDone (c : TokenClient) (idx : ℕ) (budget : Option GitHubRateBudget) (now : ℚ)
    (b : AuthBudgets) (key : String) :
    (c.recordAuthAttemptDone idx budget now b key).inFlight =
      (b key).inFlight - if c.Owes idx key then 1 else 0 := by
  unfold TokenClient.recordAuthAttemptDone TokenClient.Owes AuthBudgets.update
  by_cases haware : c.isBudgetAware idx = true
  · by_cases hkey : c.budgetKey idx = key
    · simp [haware, hkey, inFlight_done]
    · simp [haware, hkey, Ne.symm hkey]
  · simp [haware]

theorem inFlight_mark (c : TokenClient) (idx : ℕ) (blocked : ℚ) (b : AuthBudgets) (key : String) :
    (c.markAuthTokenCooledDown idx blocked b key).inFlight = (b key).inFlight := by
  unfold TokenClient.markAuthTokenCooledDown
  split
  · simp only [AuthBudgets.update]
    split
    · rfl
    · rfl
  · rfl

end InFlight

/-! ## Clients stay what they are -/

section Clients

variable {cs cs' : List TokenClient} {req : TokenRequest} {key : String} {i : ℕ} {c c' : TokenClient}

/-- Nothing a token is accounted for under has changed. -/
def SameTokens (c c' : TokenClient) : Prop := c'.tokens = c.tokens ∧ c'.scope = c.scope

theorem SameTokens.owes (h : SameTokens c c') (idx : ℕ) (key : String) :
    c'.Owes idx key = c.Owes idx key := by
  unfold TokenClient.Owes TokenClient.isBudgetAware TokenClient.budgetKey
  rw [h.1, h.2]

theorem sameTokens_of_samePool (h : TokenClient.SamePool c c') : SameTokens c c' := by
  rw [h]
  exact ⟨rfl, rfl⟩

/-- The clients there were are still there. -/
def StillThere (cs cs' : List TokenClient) : Prop :=
  ∀ (i : ℕ) c, cs[i]? = some c → ∃ c', cs'[i]? = some c' ∧ SameTokens c c'

theorem stillThere_refl (cs : List TokenClient) : StillThere cs cs :=
  fun _ c hc => ⟨c, hc, rfl, rfl⟩

theorem stillThere_append (cs more : List TokenClient) : StillThere cs (cs ++ more) := by
  intro i c hc
  refine ⟨c, ?_, rfl, rfl⟩
  rw [List.getElem?_append_left (List.getElem?_eq_some_iff.mp hc).1]
  exact hc

theorem stillThere_set (hc : cs[i]? = some c) (hsame : SameTokens c c') :
    StillThere cs (cs.set i c') := by
  intro j d hd
  by_cases hij : i = j
  · subst hij
    obtain rfl := Option.some.inj (hc.symm.trans hd)
    exact ⟨c', List.getElem?_set_self (List.getElem?_eq_some_iff.mp hc).1, hsame⟩
  · exact ⟨d, by rwa [List.getElem?_set_ne hij], rfl, rfl⟩

/-- The request waits on a token accounted for under the key. -/
def TokenRequest.holds (cs : List TokenClient) (key : String) (req : TokenRequest) : Bool :=
  req.current.any fun idx => cs[req.client]?.any fun c => c.Owes idx key

theorem holds_eq (h : StillThere cs cs') (hc : cs[req.client]? = some c) :
    req.holds cs' key = req.holds cs key := by
  obtain ⟨c', hc', hsame⟩ := h _ c hc
  unfold TokenRequest.holds
  rw [hc, hc']
  simp only [Option.any_some, hsame.owes]

/-- A request within the pool it is made to, with no token tried twice. -/
structure TokenRequest.Fits (cs : List TokenClient) (req : TokenRequest) : Prop where
  client : ∃ c, cs[req.client]? = some c ∧ ∀ i ∈ req.tried, i < c.tokens.length
  once : req.tried.Nodup
  current : ∀ idx, req.current = some idx → idx ∈ req.tried

theorem TokenRequest.Fits.mono (h : req.Fits cs) (hcs : StillThere cs cs') : req.Fits cs' := by
  obtain ⟨c, hc, hbound⟩ := h.client
  obtain ⟨c', hc', hsame⟩ := hcs _ c hc
  exact ⟨⟨c', hc', fun i hi => hsame.1 ▸ hbound i hi⟩, h.once, h.current⟩

end Clients

/-! ## The accounts -/

namespace TokenWorld

variable {w : TokenWorld} {r : ℕ} {req : TokenRequest} {key : String}

/-- How many requests wait on tokens accounted for under a key. -/
def openAttempts (w : TokenWorld) (key : String) : ℕ :=
  w.requests.countP (TokenRequest.holds w.clients key)

/-- What is in flight is what is waited for, and no request has tried a token
twice. -/
structure Accounts (w : TokenWorld) : Prop where
  inFlight : ∀ key, (w.budgets key).inFlight = w.openAttempts key
  fits : ∀ req ∈ w.requests, req.Fits w.clients

theorem countP_holds_eq {cs' : List TokenClient} (h : StillThere w.clients cs')
    (hfits : ∀ req ∈ w.requests, req.Fits w.clients) (key : String) :
    w.requests.countP (TokenRequest.holds cs' key) = w.openAttempts key := by
  refine List.countP_congr fun _ hreq => ?_
  obtain ⟨c, hc, -⟩ := (hfits _ hreq).client
  rw [holds_eq h hc]

theorem accounts_start : TokenWorld.start.Accounts :=
  ⟨fun _ => rfl, fun _ hreq => absurd hreq List.not_mem_nil⟩

theorem accounts_create (h : w.Accounts) (tokens : List AuthToken) (github : Bool)
    (scope : String) : (w.create tokens github scope).Accounts := by
  have hadd : ∀ c starts, Accounts { w with starts, clients := w.clients ++ [c] } := by
    intro c starts
    have hstill := stillThere_append w.clients [c]
    refine ⟨fun key => ?_, fun _ hreq => (h.fits _ hreq).mono hstill⟩
    exact (h.inFlight key).trans (countP_holds_eq hstill h.fits key).symm
  unfold create
  simp only
  split
  · exact hadd _ w.starts
  · exact hadd _ _

/-- A request is taken up, with the token it waits on if it got one. -/
theorem Accounts.add (h : w.Accounts) {client : ℕ} {c c' : TokenClient} {b : AuthBudgets}
    (hc : w.clients[client]? = some c) (hsame : SameTokens c c')
    (hb : ∀ key, (b key).inFlight = (w.budgets key).inFlight) {idx : ℕ}
    (hidx : idx < c.tokens.length) :
    Accounts { w with
      budgets := c'.recordAuthAttemptStart idx b
      clients := w.clients.set client c'
      requests := w.requests ++ [{ client, tried := [idx], current := some idx }] } := by
  have hstill := stillThere_set hc hsame
  have hget : (w.clients.set client c')[client]? = some c' :=
    List.getElem?_set_self (List.getElem?_eq_some_iff.mp hc).1
  constructor
  · intro key
    have hnew : TokenRequest.holds (w.clients.set client c') key
        { client, tried := [idx], current := some idx } = c'.Owes idx key := by
      simp only [TokenRequest.holds, hget, Option.any_some]
    unfold openAttempts
    rw [inFlight_start, hb, h.inFlight, List.countP_append, countP_holds_eq hstill h.fits,
      List.countP_singleton, hnew]
  · intro req hreq
    rcases List.mem_append.mp hreq with hreq | hreq
    · exact (h.fits req hreq).mono hstill
    · obtain rfl := List.mem_singleton.mp hreq
      refine ⟨⟨c', hget, fun i hi => ?_⟩, List.nodup_singleton idx, ?_⟩
      · rw [List.mem_singleton.mp hi, hsame.1]
        exact hidx
      · rintro i ⟨⟩
        exact List.mem_singleton_self idx

theorem accounts_request (h : w.Accounts) (client : ℕ) (now : ℚ) :
    (w.request client now).Accounts := by
  unfold request
  split
  · exact h
  · rename_i c hc
    obtain ⟨hrefreshed, hpool, hpicked⟩ := TokenClient.selectAvailableToken_spec c now w.budgets
    split
    · rename_i budgets c' hfound
      rw [hfound] at hrefreshed hpool
      have hstill := stillThere_set hc (sameTokens_of_samePool hpool)
      have hget : (w.clients.set client c')[client]? = some c' :=
        List.getElem?_set_self (List.getElem?_eq_some_iff.mp hc).1
      refine ⟨fun key => ?_, fun req hreq => ?_⟩
      · unfold openAttempts
        rw [hrefreshed.inFlight_eq, h.inFlight, List.countP_append, countP_holds_eq hstill h.fits]
        rfl
      · rcases List.mem_append.mp hreq with hreq | hreq
        · exact (h.fits req hreq).mono hstill
        · obtain rfl := List.mem_singleton.mp hreq
          refine ⟨⟨c', hget, fun i hi => absurd hi List.not_mem_nil⟩, List.nodup_nil, ?_⟩
          rintro i ⟨⟩
    · rename_i idx budgets c' hfound
      rw [hfound] at hrefreshed hpool hpicked
      exact h.add hc (sameTokens_of_samePool hpool) hrefreshed.inFlight_eq (hpicked.picked idx rfl).1

/-- A request gives up the token it waits on. -/
theorem Accounts.release (h : w.Accounts) {idx : ℕ} {c : TokenClient} {b : AuthBudgets}
    {cs : List TokenClient} (hr : w.requests[r]? = some req) (hcurrent : req.current = some idx)
    (hc : w.clients[req.client]? = some c) (hstill : StillThere w.clients cs)
    (hb : ∀ key, (b key).inFlight = (w.budgets key).inFlight - if c.Owes idx key then 1 else 0) :
    Accounts { w with
      budgets := b
      clients := cs
      requests := w.requests.set r { req with current := none } } := by
  obtain ⟨hlt, hget⟩ := List.getElem?_eq_some_iff.mp hr
  constructor
  · intro key
    have hheld : TokenRequest.holds cs key req = c.Owes idx key := by
      rw [holds_eq hstill hc]
      simp only [TokenRequest.holds, hcurrent, hc, Option.any_some]
    unfold openAttempts
    rw [hb, h.inFlight, List.countP_set hlt, hget, hheld, countP_holds_eq hstill h.fits]
    rfl
  · intro req' hreq'
    rcases List.mem_or_eq_of_mem_set hreq' with hreq' | rfl
    · exact (h.fits req' hreq').mono hstill
    · have hfits := (h.fits req (List.mem_of_getElem? hr)).mono hstill
      exact ⟨hfits.client, hfits.once, fun i hi => by cases hi⟩

/-- A request goes on with another token. -/
theorem Accounts.goOn (h : w.Accounts) {idx next : ℕ} {c c' : TokenClient} {b : AuthBudgets}
    (hr : w.requests[r]? = some req) (hcurrent : req.current = some idx)
    (hc : w.clients[req.client]? = some c) (hsame : SameTokens c c')
    (hb : ∀ key, (b key).inFlight = (w.budgets key).inFlight - if c.Owes idx key then 1 else 0)
    (hnext : next < c.tokens.length) (hfresh : next ∉ req.tried) :
    Accounts { w with
      budgets := c'.recordAuthAttemptStart next b
      clients := w.clients.set req.client c'
      requests := w.requests.set r
        { req with tried := req.tried ++ [next], current := some next } } := by
  have hstill := stillThere_set hc hsame
  obtain ⟨hlt, hget⟩ := List.getElem?_eq_some_iff.mp hr
  have hclient : (w.clients.set req.client c')[req.client]? = some c' :=
    List.getElem?_set_self (List.getElem?_eq_some_iff.mp hc).1
  constructor
  · intro key
    have hheld : TokenRequest.holds (w.clients.set req.client c') key req = c.Owes idx key := by
      rw [holds_eq hstill hc]
      simp only [TokenRequest.holds, hcurrent, hc, Option.any_some]
    have hnew : TokenRequest.holds (w.clients.set req.client c') key
        { req with tried := req.tried ++ [next], current := some next } = c'.Owes next key := by
      simp only [TokenRequest.holds, hclient, Option.any_some]
    unfold openAttempts
    rw [inFlight_start, hb, h.inFlight, List.countP_set hlt, hget, hheld, hnew,
      countP_holds_eq hstill h.fits]
  · intro req' hreq'
    rcases List.mem_or_eq_of_mem_set hreq' with hreq' | rfl
    · exact (h.fits req' hreq').mono hstill
    · have hfits := (h.fits req (List.mem_of_getElem? hr)).mono hstill
      obtain ⟨c'', hc'', hbound⟩ := hfits.client
      obtain rfl := Option.some.inj (hclient.symm.trans hc'')
      refine ⟨⟨c', hclient, fun i hi => ?_⟩, ?_, ?_⟩
      · rcases List.mem_append.mp hi with hi | hi
        · exact hbound i hi
        · rw [List.mem_singleton.mp hi, hsame.1]
          exact hnext
      · exact List.nodup_append.mpr ⟨hfits.once, List.nodup_singleton next, fun i hi j hj hij =>
          hfresh (List.mem_singleton.mp hj ▸ hij ▸ hi)⟩
      · rintro i ⟨⟩
        exact List.mem_append_right _ (List.mem_singleton_self next)

theorem inFlight_cool (w : TokenWorld) (c : TokenClient) (idx : ℕ)
    (budget : Option GitHubRateBudget) (reset : Option ℚ) (doneAt cooledAt : ℚ) (key : String) :
    ((w.cool c idx budget reset doneAt cooledAt).2 key).inFlight =
      (w.budgets key).inFlight - if c.Owes idx key then 1 else 0 :=
  (inFlight_mark c idx _ _ key).trans (inFlight_recordDone c idx budget doneAt w.budgets key)

theorem accounts_complete (h : w.Accounts) (r : ℕ) (outcome : AttemptOutcome)
    (doneAt cooledAt pickAt : ℚ) : (w.complete r outcome doneAt cooledAt pickAt).Accounts := by
  unfold complete
  split
  · exact h
  · rename_i req hr
    split
    · rename_i idx c hcurrent hc
      simp only
      split
      · exact h.release hr hcurrent hc (stillThere_refl w.clients)
          (inFlight_recordDone c idx _ doneAt w.budgets)
      · rename_i reset hlimited
        -- the pool as the next token is picked
        have hcool := inFlight_cool w c idx (if c.github then outcome.budget else none) reset doneAt
          cooledAt
        have hcooled : SameTokens c
            (w.cool c idx (if c.github then outcome.budget else none) reset doneAt cooledAt).1 :=
          ⟨rfl, rfl⟩
        generalize w.cool c idx (if c.github then outcome.budget else none) reset doneAt cooledAt =
          cooled at hcool hcooled
        obtain ⟨c₁, b₁⟩ := cooled
        obtain ⟨hrefreshed, hpool, hpicked⟩ :=
          TokenClient.nextAvailableToken_spec c₁ req.tried idx pickAt b₁
        have hsame : ∀ c₂, TokenClient.SamePool c₁ c₂ → SameTokens c c₂ := fun c₂ hpool =>
          ⟨(sameTokens_of_samePool hpool).1.trans hcooled.1,
            (sameTokens_of_samePool hpool).2.trans hcooled.2⟩
        simp only
        split
        · rename_i b₂ c₂ hfound
          rw [hfound] at hrefreshed hpool
          exact h.release hr hcurrent hc (stillThere_set hc (hsame c₂ hpool)) fun key =>
            (hrefreshed.inFlight_eq key).trans (hcool key)
        · rename_i next b₂ c₂ hfound
          rw [hfound] at hrefreshed hpool hpicked
          obtain ⟨hnext, hfresh, -⟩ := hpicked.picked next rfl
          rw [if_neg hfresh]
          exact h.goOn hr hcurrent hc (hsame c₂ hpool)
            (fun key => (hrefreshed.inFlight_eq key).trans (hcool key)) (hcooled.1 ▸ hnext) hfresh
    · exact h

/-- **What is in flight is what is waited for**: after any events in any order
every budget has as many attempts in flight as requests wait on its tokens,
and no request has tried a token twice, or more than there are. -/
theorem run_accounts (events : List TokenEvent) :
    (∀ key, ((run events).budgets key).inFlight = (run events).openAttempts key) ∧
      ∀ req ∈ (run events).requests, req.tried.Nodup ∧
        (∀ idx, req.current = some idx → idx ∈ req.tried) ∧
        ∃ c, (run events).clients[req.client]? = some c ∧ req.tried.length ≤ c.tokens.length := by
  have hstep : ∀ w e, Accounts w → (w.step e).Accounts := by
    intro w e h
    cases e with
    | create tokens github scope => exact accounts_create h tokens github scope
    | request client now => exact accounts_request h client now
    | complete r outcome doneAt cooledAt pickAt =>
      exact accounts_complete h r outcome doneAt cooledAt pickAt
  have hlast : (run events).Accounts := (always_of_step hstep events accounts_start).last
  refine ⟨hlast.inFlight, fun req hreq => ?_⟩
  obtain ⟨⟨c, hc, hbound⟩, honce, hcurrent⟩ := hlast.fits req hreq
  refine ⟨honce, hcurrent, c, hc, ?_⟩
  have hsub : req.tried ⊆ List.range c.tokens.length := fun i hi => List.mem_range.mpr (hbound i hi)
  have hle := (List.subperm_of_subset honce hsub).length_le
  rwa [List.length_range] at hle

/-! ## The picks -/

/-- What an event picks. A request starts with a token that may be used then,
and one that is limited goes on with another, as long as there is one. -/
def PicksWell (w : TokenWorld) : TokenEvent → Prop
  | .create _ _ _ => True
  | .request client now => ∀ c, w.clients[client]? = some c →
    ∃ req, (w.request client now).requests = w.requests ++ [req] ∧ req.tried = req.current.toList ∧
      c.PickedFrom w.budgets now (fun _ => True) (fun idx => c.isBudgetAware idx = true)
        (fun idx => c.isBudgetAware idx = true) req.current
  | .complete r outcome doneAt cooledAt pickAt => ∀ req idx c, w.requests[r]? = some req →
    req.current = some idx → w.clients[req.client]? = some c →
    ∃ req', (w.complete r outcome doneAt cooledAt pickAt).requests = w.requests.set r req' ∧
      req'.tried = req.tried ++ req'.current.toList ∧
      match if c.github then outcome.limited else none with
      | none => req'.current = none
      | some reset =>
        let cooled := w.cool c idx (if c.github then outcome.budget else none) reset doneAt cooledAt
        cooled.1.PickedFrom cooled.2 pickAt (· ∉ req.tried) (fun i => c.isBot i = true)
          (fun i => c.isBudgetAware i = true ∧ c.isBot i = true) req'.current

theorem picksWell_request (w : TokenWorld) (client : ℕ) (now : ℚ) :
    w.PicksWell (.request client now) := by
  intro c hc
  obtain ⟨-, -, hpicked⟩ := TokenClient.selectAvailableToken_spec c now w.budgets
  unfold request
  rw [hc]
  simp only
  split
  · rename_i budgets c' hfound
    rw [hfound] at hpicked
    exact ⟨_, rfl, rfl, hpicked⟩
  · rename_i idx budgets c' hfound
    rw [hfound] at hpicked
    exact ⟨_, rfl, rfl, hpicked⟩

theorem picksWell_complete (w : TokenWorld) (r : ℕ) (outcome : AttemptOutcome)
    (doneAt cooledAt pickAt : ℚ) : w.PicksWell (.complete r outcome doneAt cooledAt pickAt) := by
  intro req idx c hr hcurrent hc
  unfold complete
  rw [hr]
  simp only [hcurrent, hc]
  cases hlimited : if c.github then outcome.limited else none with
  | none => exact ⟨_, rfl, (List.append_nil _).symm, rfl⟩
  | some reset =>
    obtain ⟨-, -, hpicked⟩ := TokenClient.nextAvailableToken_spec
      (w.cool c idx (if c.github then outcome.budget else none) reset doneAt cooledAt).1 req.tried idx
      pickAt (w.cool c idx (if c.github then outcome.budget else none) reset doneAt cooledAt).2
    simp only
    split
    · rename_i b₂ c₂ hfound
      rw [hfound] at hpicked
      exact ⟨_, rfl, (List.append_nil _).symm, hpicked⟩
    · rename_i next b₂ c₂ hfound
      rw [hfound] at hpicked
      obtain ⟨-, hfresh, -⟩ := hpicked.picked next rfl
      rw [if_neg hfresh]
      exact ⟨_, rfl, rfl, hpicked⟩

/-- **Every pick of a run is one that could be made**: no blocked token, none
tried before, none only where all are blocked, a bot before any other where a
request goes on, and of the budgets the one with most left. -/
theorem run_picksWell (events : List TokenEvent) :
    EachStep TokenWorld.step TokenWorld.PicksWell TokenWorld.start events := by
  have hall : ∀ (w : TokenWorld) e, w.PicksWell e := by
    intro w e
    cases e with
    | create tokens github scope => trivial
    | request client now => exact picksWell_request w client now
    | complete r outcome doneAt cooledAt pickAt =>
      exact picksWell_complete w r outcome doneAt cooledAt pickAt
  generalize TokenWorld.start = w
  induction events generalizing w with
  | nil => trivial
  | cons e events ih => exact ⟨hall w e, ih (w.step e)⟩

end TokenWorld

/-! ## What a step does to a budget -/

/-- When an event reads the clock. -/
def TokenEvent.readings : TokenEvent → List ℚ
  | .create _ _ _ => []
  | .request _ now => [now]
  | .complete _ _ doneAt cooledAt pickAt => [doneAt, cooledAt, pickAt]

/-- What a budget is, it stays under all that is done to one. -/
structure KeptByPool (times : List ℚ) (P : AuthBudgetState → Prop) : Prop where
  resetExpired : ∀ s, ∀ now ∈ times, P s → P (s.resetExpired now)
  learn : ∀ s budget, P s → P (s.learn budget)
  inFlight : ∀ (s : AuthBudgetState) n, P s → P { s with inFlight := n }
  blocked : ∀ (s : AuthBudgetState) t, P s → P { s with blockedUntilMs := t }

section Kept

variable {times : List ℚ} {P : AuthBudgetState → Prop} {b b' : AuthBudgets} {key : String} {now : ℚ}
variable {c : TokenClient} {idx : ℕ}

theorem KeptByPool.refreshed (h : KeptByPool times P) (hnow : now ∈ times) (hb : Refreshed now b b')
    (hp : P (b key)) : P (b' key) := by
  rcases hb key with hb | hb
  · rwa [hb]
  · rw [hb]
    exact h.resetExpired _ now hnow hp

theorem KeptByPool.start (h : KeptByPool times P) (hp : P (b key)) :
    P (c.recordAuthAttemptStart idx b key) := by
  unfold TokenClient.recordAuthAttemptStart
  split
  · simp only [AuthBudgets.update]
    split
    · exact h.inFlight _ _ hp
    · exact hp
  · exact hp

theorem KeptByPool.mark (h : KeptByPool times P) {blocked : ℚ} (hp : P (b key)) :
    P (c.markAuthTokenCooledDown idx blocked b key) := by
  unfold TokenClient.markAuthTokenCooledDown
  split
  · simp only [AuthBudgets.update]
    split
    · exact h.blocked _ _ hp
    · exact hp
  · exact hp

theorem KeptByPool.done (h : KeptByPool times P) {budget : Option GitHubRateBudget} (hnow : now ∈ times)
    (hp : P (b key)) : P (c.recordAuthAttemptDone idx budget now b key) := by
  unfold TokenClient.recordAuthAttemptDone
  split
  · simp only [AuthBudgets.update]
    split
    · have hreset := h.resetExpired _ now hnow (h.inFlight _ ((b key).inFlight - 1) hp)
      unfold AuthBudgetState.done
      cases budget with
      | none => exact hreset
      | some budget => exact h.learn _ budget hreset
    · exact hp
  · exact hp

/-- **A step forgets windows that are over, learns, counts and blocks**, and
does nothing else to a budget. -/
theorem KeptByPool.step {w : TokenWorld} {e : TokenEvent} (h : KeptByPool e.readings P)
    (hp : P (w.budgets key)) : P ((w.step e).budgets key) := by
  cases e with
  | create tokens github scope =>
    show P ((w.create tokens github scope).budgets key)
    unfold TokenWorld.create
    simp only
    split
    · exact hp
    · exact hp
  | request client now =>
    show P ((w.request client now).budgets key)
    have hnow : now ∈ (TokenEvent.request client now).readings := List.mem_singleton_self now
    unfold TokenWorld.request
    split
    · exact hp
    · rename_i c hc
      obtain ⟨hrefreshed, -, -⟩ := TokenClient.selectAvailableToken_spec c now w.budgets
      split
      · rename_i budgets c' hfound
        rw [hfound] at hrefreshed
        exact h.refreshed hnow hrefreshed hp
      · rename_i idx budgets c' hfound
        rw [hfound] at hrefreshed
        -- the token picked is read and charged
        exact h.start (h.refreshed hnow hrefreshed hp)
  | complete r outcome doneAt cooledAt pickAt =>
    show P ((w.complete r outcome doneAt cooledAt pickAt).budgets key)
    have hdone : doneAt ∈ (TokenEvent.complete r outcome doneAt cooledAt pickAt).readings :=
      List.mem_cons_self
    have hpick : pickAt ∈ (TokenEvent.complete r outcome doneAt cooledAt pickAt).readings := by
      simp [TokenEvent.readings]
    unfold TokenWorld.complete
    split
    · exact hp
    · rename_i req hr
      split
      · rename_i idx c hcurrent hc
        simp only
        split
        · -- nothing was limited, so the request is done
          exact h.done hdone hp
        · rename_i reset hlimited
          obtain ⟨hrefreshed, -, -⟩ := TokenClient.nextAvailableToken_spec
            (w.cool c idx (if c.github then outcome.budget else none) reset doneAt cooledAt).1
            req.tried idx pickAt
            (w.cool c idx (if c.github then outcome.budget else none) reset doneAt cooledAt).2
          have hcool : P ((w.cool c idx (if c.github then outcome.budget else none) reset doneAt
              cooledAt).2 key) := h.mark (h.done hdone hp)
          split
          · rename_i b₂ c₂ hfound
            rw [hfound] at hrefreshed
            exact h.refreshed hpick hrefreshed hcool
          · rename_i next b₂ c₂ hfound
            rw [hfound] at hrefreshed
            split
            · exact h.refreshed hpick hrefreshed hcool
            · exact h.start (h.refreshed hpick hrefreshed hcool)
      · exact hp

end Kept

/-! ## Within a window -/

section Window

variable {s s' : AuthBudgetState} {r : ℚ}

/-- A state of the window that ends at `r`, with no more remaining and no
less used of it, or of a later window. -/
structure WithinWindow (r : ℚ) (s s' : AuthBudgetState) : Prop where
  later : ∃ r', s'.resetAtMs = some r' ∧ r ≤ r'
  remaining : s'.resetAtMs = some r → ∀ x, s.remaining = some x → ∃ x', s'.remaining = some x' ∧ x' ≤ x
  used : s'.resetAtMs = some r → ∀ x, s.used = some x → ∃ x', s'.used = some x' ∧ x ≤ x'

theorem within_refl (h : s.resetAtMs = some r) : WithinWindow r s s :=
  ⟨⟨r, h, le_refl r⟩, fun _ x hx => ⟨x, hx, le_refl x⟩, fun _ x hx => ⟨x, hx, le_refl x⟩⟩

theorem remainingAfter_le {b : GitHubRateBudget} {x : ℚ}
    (hsame : AuthBudgetState.sameOrUnknownWindow s.resetAtMs b.resetAtMs = true)
    (hx : s.remaining = some x) : ∃ x', s.remainingAfter b = some x' ∧ x' ≤ x := by
  unfold AuthBudgetState.remainingAfter
  cases b.remaining with
  | none => exact ⟨x, hx, le_refl x⟩
  | some remaining =>
    simp only [hx, if_pos hsame]
    exact ⟨_, rfl, min_le_left x remaining⟩

theorem le_usedAfter {b : GitHubRateBudget} {x : ℚ}
    (hsame : AuthBudgetState.sameOrUnknownWindow s.resetAtMs b.resetAtMs = true)
    (hx : s.used = some x) : ∃ x', s.usedAfter b = some x' ∧ x ≤ x' := by
  unfold AuthBudgetState.usedAfter
  cases b.used with
  | none => exact ⟨x, hx, le_refl x⟩
  | some used =>
    simp only [hx, if_pos hsame]
    exact ⟨_, rfl, le_max_left x used⟩

/-- A window that is not older than one that ends at `r`, or a later one, is
that one only where it was that one. -/
theorem window_of_not_older {b : GitHubRateBudget} {r' : ℚ} (hr' : s.resetAtMs = some r')
    (hle : r ≤ r') (h : AuthBudgetState.isOlderWindow s.resetAtMs b.resetAtMs = false) :
    (∃ q, b.resetAtMs.or s.resetAtMs = some q ∧ r ≤ q) ∧
      (b.resetAtMs.or s.resetAtMs = some r → s.resetAtMs = some r ∧
        AuthBudgetState.sameOrUnknownWindow s.resetAtMs b.resetAtMs = true) := by
  rw [hr'] at h ⊢
  cases hq : b.resetAtMs with
  | none =>
    refine ⟨⟨r', rfl, hle⟩, fun heq => ⟨heq, ?_⟩⟩
    simp [AuthBudgetState.sameOrUnknownWindow]
  | some q =>
    rw [hq] at h
    have hle' : r' ≤ q := not_lt.mp (of_decide_eq_false h)
    refine ⟨⟨q, rfl, le_trans hle hle'⟩, fun heq => ?_⟩
    obtain rfl := Option.some.inj heq
    obtain rfl := le_antisymm hle' hle
    exact ⟨rfl, by simp [AuthBudgetState.sameOrUnknownWindow]⟩

/-- A response leaves less of the window, or opens a later one. -/
theorem WithinWindow.learn (h : WithinWindow r s s') (budget : GitHubRateBudget) :
    WithinWindow r s (s'.learn budget) := by
  obtain ⟨r', hr', hle⟩ := h.later
  unfold AuthBudgetState.learn
  split
  · exact ⟨⟨r', hr', hle⟩, h.remaining, h.used⟩
  · rename_i hnotOlder
    obtain ⟨hlater, hwindow⟩ :=
      window_of_not_older hr' hle (Bool.eq_false_of_not_eq_true hnotOlder)
    refine ⟨hlater, fun hr x hx => ?_, fun hr x hx => ?_⟩
    · obtain ⟨hreset, hsame⟩ := hwindow hr
      obtain ⟨y, hy, hyx⟩ := h.remaining hreset x hx
      obtain ⟨z, hz, hzy⟩ := remainingAfter_le hsame hy
      exact ⟨z, hz, le_trans hzy hyx⟩
    · obtain ⟨hreset, hsame⟩ := hwindow hr
      obtain ⟨y, hy, hxy⟩ := h.used hreset x hx
      obtain ⟨z, hz, hyz⟩ := le_usedAfter hsame hy
      exact ⟨z, hz, le_trans hxy hyz⟩

theorem WithinWindow.keptBy {times : List ℚ} (htimes : ∀ now ∈ times, now < r) :
    KeptByPool times (WithinWindow r s) where
  resetExpired s' now hnow h := by
    obtain ⟨r', hr', hle⟩ := h.later
    have hkept : s'.resetExpired now = s' := by
      unfold AuthBudgetState.resetExpired
      rw [hr']
      exact if_pos (lt_of_lt_of_le (htimes now hnow) hle)
    rwa [hkept]
  learn s' budget h := h.learn budget
  inFlight s' n h := ⟨h.later, h.remaining, h.used⟩
  blocked s' t h := ⟨h.later, h.remaining, h.used⟩

/-- **While a window lasts, no less is used of it and no more remains**:
whatever responses come in and in whatever order, as long as its end has not
passed. -/
theorem remaining_antitone (events more : List TokenEvent) (key : String)
    (hr : ((TokenWorld.run events).budgets key).resetAtMs = some r)
    (hmore : ∀ e ∈ more, ∀ now ∈ e.readings, now < r) :
    WithinWindow r ((TokenWorld.run events).budgets key)
      ((TokenWorld.run (events ++ more)).budgets key) := by
  unfold TokenWorld.run
  rw [List.foldl_append]
  generalize hw : events.foldl TokenWorld.step TokenWorld.start = w
  have hstart : WithinWindow r (w.budgets key) (w.budgets key) := by
    refine within_refl ?_
    rw [← hw]
    exact hr
  have hstep : ∀ v e, WithinWindow r (w.budgets key) (TokenWorld.budgets v key) →
      (∀ now ∈ e.readings, now < r) → WithinWindow r (w.budgets key) ((v.step e).budgets key) :=
    fun v e hv he => (WithinWindow.keptBy he).step hv
  exact (always_of_eachStep hstep hstart (eachStep_of_forall hmore)).last

/-- The token of an App. -/
def botToken : AuthToken :=
  { env := "github_app:1", value := "t", kind := .githubApp, name := none, strategy := .budgetAware }

/-- An attempt whose response says what remains until 100. -/
def saysRemaining (remaining : ℚ) : AttemptOutcome :=
  { budget := some { limit := none, remaining := some remaining, used := none,
                     resetAtMs := some 100, cost := none }
    limited := none }

theorem remaining_antitone_stale :
    WithinWindow 100
      ((TokenWorld.run [.create [botToken] true "graphql", .request 0 1, .request 0 2,
        .complete 1 (saysRemaining 10) 3 3 3]).budgets (budgetKeyFor "graphql" botToken))
      ((TokenWorld.run ([.create [botToken] true "graphql", .request 0 1, .request 0 2,
        .complete 1 (saysRemaining 10) 3 3 3] ++
          [.complete 0 (saysRemaining 50) 4 4 4])).budgets (budgetKeyFor "graphql" botToken)) :=
  remaining_antitone _ _ _ (by decide) (by decide)

end Window

end SymphonyBoard
