import Mathlib.Data.Rat.Init
import Mathlib.Algebra.Order.Ring.Rat
import SymphonyBoard.Auth.Resolver
import SymphonyBoard.Common.OrdMap
/-!
# The token pool of a client

The pool of `src/sources/http.ts` and the request loops of
`src/sources/graphql.ts` and `src/sources/rest.ts`, which use it alike. What
is known of a token's budget is kept for the process under a key that clients
share; a client keeps a cursor and its own cooldowns. A request that is
limited goes on with the next token, so requests of all clients are in flight
together and end in any order: a world takes one event after another.
-/

namespace SymphonyBoard

/-! ## Budgets -/

/-- What is known of one token's budget. -/
structure AuthBudgetState where
  limit : Option ℚ
  remaining : Option ℚ
  used : Option ℚ
  resetAtMs : Option ℚ
  blockedUntilMs : Option ℚ
  inFlight : ℕ
  lastCost : ℚ
deriving DecidableEq

/-- What a response says of its token's budget. -/
structure GitHubRateBudget where
  limit : Option ℚ
  remaining : Option ℚ
  used : Option ℚ
  resetAtMs : Option ℚ
  cost : Option ℚ
deriving DecidableEq

/-- `DEFAULT_ESTIMATED_COST` -/
def defaultEstimatedCost : ℚ := 1

namespace AuthBudgetState

/-- A budget of which nothing is known. -/
def unknown : AuthBudgetState :=
  { limit := none, remaining := none, used := none, resetAtMs := none, blockedUntilMs := none,
    inFlight := 0, lastCost := defaultEstimatedCost }

/-- `resetExpiredBudget`: a window that is over is forgotten. -/
def resetExpired (s : AuthBudgetState) (now : ℚ) : AuthBudgetState :=
  match s.resetAtMs with
  | none => s
  | some reset => if now < reset then s else { unknown with inFlight := s.inFlight }

/-- The two windows are one, or one of them is not known. -/
def sameOrUnknownWindow (prior reset : Option ℚ) : Bool :=
  prior = none || reset = none || prior = reset

/-- A reset before the one known. -/
def isOlderWindow (prior reset : Option ℚ) : Bool :=
  prior.any fun p => reset.any fun r => r < p

/-- A reset after the one known. -/
def isNewerWindow (prior reset : Option ℚ) : Bool :=
  prior.any fun p => reset.any fun r => p < r

/-- The cost a response states. -/
def statedCost (s : AuthBudgetState) (b : GitHubRateBudget) : ℚ :=
  match b.cost with
  | some cost => if 0 < cost then cost else s.lastCost
  | none => s.lastCost

/-- Where none is stated, the cost is what the request took off what
remained. -/
def costAfter (s : AuthBudgetState) (b : GitHubRateBudget) : ℚ :=
  match b.cost, s.remaining, b.remaining with
  | none, some prior, some remaining =>
    if sameOrUnknownWindow s.resetAtMs b.resetAtMs = true ∧ remaining < prior then prior - remaining
    else s.lastCost
  | _, _, _ => s.statedCost b

/-- The lesser of what is known and what is said within one window. -/
def remainingAfter (s : AuthBudgetState) (b : GitHubRateBudget) : Option ℚ :=
  match b.remaining with
  | none => s.remaining
  | some remaining =>
    match s.remaining with
    | none => some remaining
    | some prior =>
      some (if sameOrUnknownWindow s.resetAtMs b.resetAtMs then min prior remaining else remaining)

/-- The requests used, by what is known and what is reported. -/
def usedAfter (s : AuthBudgetState) (b : GitHubRateBudget) : Option ℚ :=
  match b.used with
  | none => s.used
  | some used =>
    match s.used with
    | none => some used
    | some prior =>
      some (if sameOrUnknownWindow s.resetAtMs b.resetAtMs then max prior used else used)

/-- What a response adds to what is known; one of an older window adds
nothing. -/
def learn (s : AuthBudgetState) (b : GitHubRateBudget) : AuthBudgetState :=
  if isOlderWindow s.resetAtMs b.resetAtMs then { s with lastCost := s.statedCost b }
  else
    let remaining := s.remainingAfter b
    let resetAtMs := b.resetAtMs.or s.resetAtMs
    let blocked := if isNewerWindow s.resetAtMs b.resetAtMs then none else s.blockedUntilMs
    { limit := b.limit.or s.limit
      remaining
      used := s.usedAfter b
      resetAtMs
      blockedUntilMs := if remaining = some 0 ∧ resetAtMs ≠ none then resetAtMs else blocked
      inFlight := s.inFlight
      lastCost := s.costAfter b }

/-- The end of an attempt. -/
def done (s : AuthBudgetState) (budget : Option GitHubRateBudget) (now : ℚ) : AuthBudgetState :=
  let s := { s with inFlight := s.inFlight - 1 }.resetExpired now
  match budget with
  | none => s
  | some b => s.learn b

/-- What is expected to remain once what is in flight has come back. -/
def score (s : AuthBudgetState) (remaining : ℚ) : ℚ :=
  remaining - s.inFlight * (if 0 < s.lastCost then s.lastCost else defaultEstimatedCost)

end AuthBudgetState

/-- What is known of each budget of the process, by its key. -/
abbrev AuthBudgets := String → AuthBudgetState

/-- One token's state replaced. -/
def AuthBudgets.update (budgets : AuthBudgets) (key : String)
    (f : AuthBudgetState → AuthBudgetState) : AuthBudgets :=
  fun k => if k = key then f (budgets k) else budgets k

/-! ## Clients -/

/-- `blockedUntil` has the client's own cooldowns, by the token's place. -/
structure TokenClient where
  tokens : List AuthToken
  github : Bool
  scope : String
  cursor : ℕ
  blockedUntil : OrdMap ℕ ℚ

/-- The strategy, as the key of a client spells it. -/
def strategyText : AuthTokenStrategy → String
  | .failover => "failover"
  | .budgetAware => "budget_aware"
  | .roundRobin => "budget_aware"

/-- The kind, as the key of a client spells it. -/
def tokenKindText : TokenKind → String
  | .pat => "pat"
  | .githubApp => "github_app"

/-- Without the token's own text, which is minted anew. -/
def budgetKeyFor (scope : String) (token : AuthToken) : String :=
  "\t".intercalate [scope, token.env, tokenKindText token.kind, strategyText token.strategy,
    token.name.getD ""]

namespace TokenClient

variable (c : TokenClient)

/-- A token that is picked by its budget. -/
def isBudgetAware (idx : ℕ) : Bool := c.tokens[idx]?.any fun token => token.strategy ≠ .failover

/-- An App's token. -/
def isBot (idx : ℕ) : Bool := c.tokens[idx]?.any fun token => token.kind = .githubApp

/-- The key of a token's budget. -/
def budgetKey (idx : ℕ) : String := (c.tokens[idx]?.map (budgetKeyFor c.scope)).getD ""

/-! ### Which token -/

/-- A token that is neither cooling down nor blocked. -/
def tokenAvailable (budgets : AuthBudgets) (idx : ℕ) (now : ℚ) : Bool × AuthBudgets :=
  if now < (c.blockedUntil.get? idx).getD 0 then (false, budgets)
  else if c.isBudgetAware idx = false then (true, budgets)
  else
    let budgets := budgets.update (c.budgetKey idx) (·.resetExpired now)
    (decide ((budgets (c.budgetKey idx)).blockedUntilMs.getD 0 ≤ now), budgets)

/-- The best token so far: its place, its score, and what is used of it. -/
structure Best where
  idx : ℕ
  score : ℚ
  used : Option ℚ

/-- A better score, or the same one and less used; what is not known counts
as all. -/
def Best.isBeaten (best : Best) (score : ℚ) (used : Option ℚ) : Bool :=
  decide (best.score < score) || (decide (best.score = score) &&
    used.any fun u => best.used.all fun b => u < b)

/-- The places in order: the first with nothing known of its budget, else
the best. -/
def pickBudgetAware (candidate : ℕ → Bool) (now : ℚ) :
    List ℕ → AuthBudgets → Option Best → Option ℕ × AuthBudgets
  | [], budgets, best => (best.map (·.idx), budgets)
  | idx :: places, budgets, best =>
    if c.isBudgetAware idx && candidate idx then
      match c.tokenAvailable budgets idx now with
      | (false, budgets) => pickBudgetAware candidate now places budgets best
      | (true, budgets) =>
        let budgets := budgets.update (c.budgetKey idx) (·.resetExpired now)
        let state := budgets (c.budgetKey idx)
        match state.remaining with
        | none => (some idx, budgets)
        | some remaining =>
          let score := state.score remaining
          let best := if best.all (·.isBeaten score state.used) then some ⟨idx, score, state.used⟩
            else best
          pickBudgetAware candidate now places budgets best
    else pickBudgetAware candidate now places budgets best

/-- The places from one on, round the pool. -/
def placesFrom (start : ℕ) : List ℕ :=
  (List.range c.tokens.length).map fun step => (start + step) % c.tokens.length

/-- The pick by budget; the cursor goes on behind it. -/
def selectBudgetAwareToken (candidate : ℕ → Bool) (now : ℚ) (budgets : AuthBudgets) :
    Option ℕ × AuthBudgets × TokenClient :=
  match c.pickBudgetAware candidate now (c.placesFrom c.cursor) budgets none with
  | (none, budgets) => (none, budgets, c)
  | (some idx, budgets) => (some idx, budgets, { c with cursor := (idx + 1) % c.tokens.length })

/-- The first available token in an order of places. -/
def firstAvailable (candidate : ℕ → Bool) (now : ℚ) : List ℕ → AuthBudgets → Option ℕ × AuthBudgets
  | [], budgets => (none, budgets)
  | idx :: places, budgets =>
    if candidate idx then
      match c.tokenAvailable budgets idx now with
      | (true, budgets) => (some idx, budgets)
      | (false, budgets) => firstAvailable candidate now places budgets
    else firstAvailable candidate now places budgets

/-- The pick of a request: by budget, then by place. -/
def selectAvailableToken (now : ℚ) (budgets : AuthBudgets) :
    Option ℕ × AuthBudgets × TokenClient :=
  match c.selectBudgetAwareToken (fun _ => true) now budgets with
  | (some idx, budgets, c) => (some idx, budgets, c)
  | (none, budgets, c) =>
    let (idx, budgets) := c.firstAvailable (fun _ => true) now (List.range c.tokens.length) budgets
    (idx, budgets, c)

/-- The token to go on with: a bot where there is one. -/
def nextAvailableToken (tried : List ℕ) (after : ℕ) (now : ℚ) (budgets : AuthBudgets) :
    Option ℕ × AuthBudgets × TokenClient :=
  let untried := fun idx => decide (idx ∉ tried)
  match c.selectBudgetAwareToken (fun idx => untried idx && c.isBot idx) now budgets with
  | (some idx, budgets, c) => (some idx, budgets, c)
  | (none, budgets, c) =>
    match c.firstAvailable (fun idx => untried idx && c.isBot idx) now (c.placesFrom (after + 1))
        budgets with
    | (some idx, budgets) => (some idx, budgets, c)
    | (none, budgets) =>
      let (idx, budgets) := c.firstAvailable untried now (c.placesFrom (after + 1)) budgets
      (idx, budgets, c)

/-! ### What is recorded -/

/-- One more request in flight. -/
def recordAuthAttemptStart (idx : ℕ) (budgets : AuthBudgets) : AuthBudgets :=
  if c.isBudgetAware idx then
    budgets.update (c.budgetKey idx) fun s => { s with inFlight := s.inFlight + 1 }
  else budgets

/-- A request that ended, with the budget it reported. -/
def recordAuthAttemptDone (idx : ℕ) (budget : Option GitHubRateBudget) (now : ℚ)
    (budgets : AuthBudgets) : AuthBudgets :=
  if c.isBudgetAware idx then budgets.update (c.budgetKey idx) (·.done budget now) else budgets

/-- A token blocked for a while. -/
def markAuthTokenCooledDown (idx : ℕ) (blocked : ℚ) (budgets : AuthBudgets) : AuthBudgets :=
  if c.isBudgetAware idx then
    budgets.update (c.budgetKey idx) fun s => { s with blockedUntilMs := some blocked }
  else budgets

end TokenClient

/-! ## The world -/

/-- `PRIMARY_COOLDOWN_MS` -/
def primaryCooldownMs : ℚ := 3600000

/-- A request: the places it has tried, and the one it waits for. -/
structure TokenRequest where
  client : ℕ
  tried : List ℕ
  current : Option ℕ

/-- How an attempt ends: what the response says of the budget, if there is
one, and whether it is a failure of a primary rate limit, with its reset. -/
structure AttemptOutcome where
  budget : Option GitHubRateBudget
  limited : Option (Option ℚ)

/-- `starts` has where the next client of a pool starts. -/
structure TokenWorld where
  budgets : AuthBudgets
  starts : OrdMap String ℕ
  clients : List TokenClient
  requests : List TokenRequest

/-- What happens. An attempt ends in one turn with the start of the next,
and the clock is read as its tokens are recorded, cooled down and picked. -/
inductive TokenEvent
  | create (tokens : List AuthToken) (github : Bool) (scope : String)
  | request (client : ℕ) (now : ℚ)
  | complete (request : ℕ) (outcome : AttemptOutcome) (doneAt cooledAt pickAt : ℚ)

/-- What clients of the same tokens share their cursor by. -/
def tokenSelectionKey (tokens : List AuthToken) (scope : String) : String :=
  "\n".intercalate (scope :: tokens.map fun token =>
    "\t".intercalate [token.env, tokenKindText token.kind, strategyText token.strategy])

namespace TokenWorld

/-- No client and no request. -/
def start : TokenWorld :=
  { budgets := fun _ => .unknown, starts := .empty, clients := [], requests := [] }

/-- `createAuthSelectionState`: clients of one pool start at one budget-aware
token after the other. -/
def create (w : TokenWorld) (tokens : List AuthToken) (github : Bool) (scope : String) :
    TokenWorld :=
  let client : TokenClient := { tokens, github, scope, cursor := 0, blockedUntil := .empty }
  let indexes := (List.range tokens.length).filter client.isBudgetAware
  if indexes = [] then { w with clients := w.clients ++ [client] }
  else
    let key := tokenSelectionKey tokens scope
    let next := (w.starts.get? key).getD 0
    { w with
      starts := w.starts.set key ((next + 1) % indexes.length)
      clients := w.clients ++ [{ client with cursor := (indexes[next]?).getD 0 }] }

/-- A request: its first token, or none where all are blocked. -/
def request (w : TokenWorld) (client : ℕ) (now : ℚ) : TokenWorld :=
  match w.clients[client]? with
  | none => w
  | some c =>
    match c.selectAvailableToken now w.budgets with
    | (none, budgets, c) =>
      { w with
        budgets
        clients := w.clients.set client c
        requests := w.requests ++ [{ client, tried := [], current := none }] }
    | (some idx, budgets, c) =>
      { w with
        budgets := c.recordAuthAttemptStart idx budgets
        clients := w.clients.set client c
        requests := w.requests ++ [{ client, tried := [idx], current := some idx }] }

/-- A limited attempt: the client and the budgets as the next token is
picked. -/
def cool (w : TokenWorld) (c : TokenClient) (idx : ℕ) (budget : Option GitHubRateBudget)
    (reset : Option ℚ) (doneAt cooledAt : ℚ) : TokenClient × AuthBudgets :=
  let blocked := reset.getD (cooledAt + primaryCooldownMs)
  let budgets := c.recordAuthAttemptDone idx budget doneAt w.budgets
  ({ c with blockedUntil := c.blockedUntil.set idx blocked },
    c.markAuthTokenCooledDown idx blocked budgets)

/-- The end of an attempt: the request is over, or goes on with another
token. -/
def complete (w : TokenWorld) (r : ℕ) (outcome : AttemptOutcome) (doneAt cooledAt pickAt : ℚ) :
    TokenWorld :=
  match w.requests[r]? with
  | none => w
  | some req =>
    match req.current, w.clients[req.client]? with
    | some idx, some c =>
      -- only a GitHub response says anything of its budget
      let budget := if c.github then outcome.budget else none
      match if c.github then outcome.limited else none with
      | none =>
        { w with
          budgets := c.recordAuthAttemptDone idx budget doneAt w.budgets
          requests := w.requests.set r { req with current := none } }
      | some reset =>
        let (c, budgets) := w.cool c idx budget reset doneAt cooledAt
        match c.nextAvailableToken req.tried idx pickAt budgets with
        | (none, budgets, c) =>
          { w with
            budgets
            clients := w.clients.set req.client c
            requests := w.requests.set r { req with current := none } }
        | (some next, budgets, c) =>
          -- the loop goes on only with a token it has not tried
          if next ∈ req.tried then
            { w with
              budgets
              clients := w.clients.set req.client c
              requests := w.requests.set r { req with current := none } }
          else
            { w with
              budgets := c.recordAuthAttemptStart next budgets
              clients := w.clients.set req.client c
              requests := w.requests.set r
                { req with tried := req.tried ++ [next], current := some next } }
    | _, _ => w

/-- One event of the pool. -/
def step (w : TokenWorld) : TokenEvent → TokenWorld
  | .create tokens github scope => w.create tokens github scope
  | .request client now => w.request client now
  | .complete r outcome doneAt cooledAt pickAt => w.complete r outcome doneAt cooledAt pickAt

/-- The world after some events. -/
def run (events : List TokenEvent) : TokenWorld := events.foldl step start

end TokenWorld

end SymphonyBoard
