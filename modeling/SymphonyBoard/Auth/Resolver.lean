import SymphonyBoard.Common.Memo
import SymphonyBoard.Config.Types
/-!
# Credential resolution

`DefaultAuthTokenResolver` of `src/auth.ts`. The resolver keeps a memo of
pool resolutions and, by source, why a mint failed for good. A pool is
resolved at most once, so what a resolution meets outside (the variables,
the key files, what each mint answers) is given by pool: the `World`. A
rejected call is an `error`.

`tokensForPolicy` calls back into `tokensForSource` for an inheriting
policy, so the calls take fuel.
-/

namespace SymphonyBoard

/-- What a token comes from. -/
inductive TokenKind
  | pat
  | githubApp
deriving DecidableEq, Repr

/-- A token, with the name it is known by. -/
structure AuthToken where
  env : String
  value : String
  kind : TokenKind
  name : Option String
  strategy : AuthTokenStrategy
deriving DecidableEq

/-- What a GitHub App's installation token is asked for with. -/
structure GitHubAppTokenRequest where
  appId : String
  installationId : String
  privateKey : String
  restUrl : String
  label : String
  name : Option String
  strategy : AuthTokenStrategy

/-- A pool object of a source: the source itself, one of its `token_pools`,
or one of its `auth_pools`. -/
inductive PoolRef
  | own
  | tokenPool (name : String)
  | authPool (name : String)
deriving DecidableEq, Repr

/-- A pool of a source. -/
structure PoolKey where
  source : SourceConfig
  ref : PoolRef
deriving DecidableEq

/-- What the resolution of one pool meets: the secrets file, the process
environment, the file system, the base64 decoder, and the answers of its
mints, by the place of the app in the pool. -/
structure PoolWorld where
  overlay : String → Option String
  processEnv : String → Option String
  readFile : String → Except String String
  decodeBase64 : String → String
  mint : ℕ → GitHubAppTokenRequest → Except String AuthToken

/-- What each pool finds in its surroundings. -/
abbrev World := PoolKey → PoolWorld

/-- A secret: the overlay's value before the process environment's, trimmed. -/
def secretValueForEnv (w : PoolWorld) (envName : String) : Option String :=
  let fromFile := (w.overlay envName).getD ""
  nonEmpty (some (trim (if fromFile ≠ "" then fromFile else (w.processEnv envName).getD "")))

/-- Escaped newlines become newlines. -/
def unescapeNewlines : List Char → List Char
  | '\\' :: 'n' :: cs => '\n' :: unescapeNewlines cs
  | c :: cs => c :: unescapeNewlines cs
  | [] => []

/-- A PEM whose line feeds were written as `\n`. -/
def escapedPem (value : String) : String := String.ofList (unescapeNewlines value.toList)

/-- `defaultRestUrl`: where a host has its REST API. -/
def defaultRestUrl (kind host : String) : String :=
  if kind = "github" then
    if host = "github.com" then "https://api.github.com" else "https://" ++ host ++ "/api/v3"
  else if kind = "gitlab" then "https://" ++ host ++ "/api/v4"
  else "https://" ++ host

/-- The key, from the first of the three variables that is named. Reading
the key file may throw. -/
def privateKeyOf (w : PoolWorld) (app : GitHubAppAuthConfig) : Except String (Option String) :=
  match nonEmpty app.privateKeyEnv, nonEmpty app.privateKeyBase64Env,
    nonEmpty app.privateKeyPathEnv with
  | some env, _, _ => .ok ((secretValueForEnv w env).map escapedPem)
  | none, some env, _ => .ok ((secretValueForEnv w env).map w.decodeBase64)
  | none, none, some env =>
    match secretValueForEnv w env with
    | some path => (w.readFile path).map some
    | none => .ok none
  | none, none, none => .ok none

/-- The request for an App's token; none where one of its secrets is missing. -/
def githubAppTokenRequest (w : PoolWorld) (source : SourceConfig) (app : GitHubAppAuthConfig)
    (strategy : AuthTokenStrategy) : Except String (Option GitHubAppTokenRequest) :=
  match secretValueForEnv w app.appIdEnv, secretValueForEnv w app.installationIdEnv with
  | some appId, some installationId => do
    let privateKey ← privateKeyOf w app
    return (privateKey.filter notBlank).map fun privateKey =>
      { appId, installationId, privateKey
        restUrl := source.restUrl.getD (defaultRestUrl source.kind source.host)
        label := "github_app:" ++ trim app.installationIdEnv
        name := nonEmpty (app.name.map trim)
        strategy }
  | _, _ => .ok none

/-- A personal token. -/
def patToken (env value : String) : AuthToken :=
  { env, value, kind := .pat, name := none, strategy := .failover }

/-- What becomes of a minted token. -/
def appToken (token : AuthToken) (app : GitHubAppAuthConfig) (strategy : AuthTokenStrategy) :
    AuthToken :=
  { token with kind := .githubApp, name := (nonEmpty (app.name.map trim)).or token.name, strategy }

/-- `canonicalPoolStrategy`: round robin is taken for the budget's strategy. -/
def canonicalPoolStrategy : Option AuthTokenStrategy → AuthTokenStrategy
  | some .roundRobin => .budgetAware
  | strategy => strategy.getD .budgetAware

/-- A pool's tokens, and why its last failed mint failed. -/
structure PoolResolution where
  tokens : List AuthToken
  failureMessage : Option String

/-- A pool without tokens. -/
def emptyResolution : PoolResolution := ⟨[], none⟩

/-- The variables a pool names, the blank ones left out. -/
def tokenEnvNamesFromPool (tokenEnv : Option String) (fallbackTokenEnvs : Option (List String)) :
    List String :=
  (tokenEnv.toList ++ fallbackTokenEnvs.getD []).filter notBlank

/-- The PATs of a pool whose variables are set. -/
def patTokens (w : PoolWorld) (envNames : List String) : List AuthToken :=
  envNames.filterMap fun rawEnvName =>
    (secretValueForEnv w (trim rawEnvName)).map (patToken (trim rawEnvName))

/-- Mint for each app of a pool in turn. A failed mint is skipped, and the
last failure is the one kept. -/
def mintApps (w : PoolWorld) (source : SourceConfig) (strategy : AuthTokenStrategy) :
    ℕ → List GitHubAppAuthConfig → Except String PoolResolution
  | _, [] => .ok emptyResolution
  | i, app :: apps => do
    let request ← githubAppTokenRequest w source app strategy
    let rest ← mintApps w source strategy (i + 1) apps
    match request.map (w.mint i) with
    | none => return rest
    | some (.ok token) => return { rest with tokens := appToken token app strategy :: rest.tokens }
    | some (.error reason) =>
      return { rest with failureMessage := rest.failureMessage.or (some reason) }

/-- A pool of the old form: the App's token, then the personal ones. -/
def resolvePool (w : PoolWorld) (source : SourceConfig) (pool : TokenPoolConfig) :
    Except String PoolResolution := do
  let apps := if source.kind = "github" then pool.githubApp.toList else []
  let minted ← mintApps w source .failover 0 apps
  return { minted with
    tokens := minted.tokens ++
      patTokens w (tokenEnvNamesFromPool pool.tokenEnv pool.fallbackTokenEnvs) }

/-- A named pool: personal tokens, or those of its Apps. -/
def resolveAuthPool (w : PoolWorld) (source : SourceConfig) (pool : AuthPoolConfig) :
    Except String PoolResolution :=
  match pool with
  | .pat tokenEnv fallbackTokenEnvs =>
    .ok ⟨patTokens w (tokenEnvNamesFromPool (some tokenEnv) fallbackTokenEnvs), none⟩
  | .githubApp strategy apps =>
    if source.kind ≠ "github" then .ok emptyResolution
    else mintApps w source (canonicalPoolStrategy strategy) 0 apps

/-- The source's old pool of a name. -/
def SourceConfig.tokenPool? (source : SourceConfig) (name : String) : Option TokenPoolConfig :=
  source.tokenPools.bind fun pools => pools.lookup name

/-- The source's pool of a name. -/
def SourceConfig.authPool? (source : SourceConfig) (name : String) : Option AuthPoolConfig :=
  source.authPools.bind fun pools => pools.lookup name

/-- The resolution of a pool object. -/
def resolve (world : World) (key : PoolKey) : Except String PoolResolution :=
  match key.ref with
  | .own => resolvePool (world key) key.source key.source.pool
  | .tokenPool name =>
    match key.source.tokenPool? name with
    | some pool => resolvePool (world key) key.source pool
    | none => .ok emptyResolution
  | .authPool name =>
    match key.source.authPool? name with
    | some pool => resolveAuthPool (world key) key.source pool
    | none => .ok emptyResolution

/-! ## The resolver -/

/-- The resolver's state: what each pool came to, and the sources whose minting failed. -/
structure ResolverState (world : World) where
  poolCache : Memo (resolve world)
  hardMintFailures : OrdMap String String

variable {world : World}

/-- A resolver that has resolved nothing. -/
def ResolverState.init : ResolverState world := ⟨.empty, .empty⟩

/-- What a call settles with, and the resolver after it. -/
abbrev Settled (world : World) (α : Type) := Except String α × ResolverState world

/-- The failure noted for a source. -/
def hardMintFailure (st : ResolverState world) (source : SourceConfig) : Option String :=
  st.hardMintFailures.get? source.sourceId

/-- `tokensForPool` and `tokensForAuthPool`: through the cache. -/
def cachedResolution (key : PoolKey) (st : ResolverState world) : Settled world PoolResolution :=
  let (resolution, poolCache) := st.poolCache.get key
  (resolution, { st with poolCache })

/-- A failure without a token is recorded, if it has a message. -/
def recordHardFailure (source : SourceConfig) (settled : Settled world PoolResolution) :
    Settled world (List AuthToken) :=
  match settled with
  | (.error message, st) => (.error message, st)
  | (.ok resolution, st) =>
    match resolution.tokens, nonEmpty resolution.failureMessage with
    | [], some message =>
      (.ok [], { st with
        hardMintFailures := st.hardMintFailures.set source.sourceId message })
    | tokens, _ => (.ok tokens, st)

/-- The named pool, if it is of the kind. -/
def namedAuthPool (source : SourceConfig) (poolName : Option String) (kind : TokenKind) :
    Option PoolKey :=
  (nonEmpty poolName).bind fun name =>
    match source.authPool? name, kind with
    | some (.pat _ _), .pat => some ⟨source, .authPool name⟩
    | some (.githubApp _ _), .githubApp => some ⟨source, .authPool name⟩
    | _, _ => none

/-- The tokens of a named pool, through the cache. -/
def tokensForNamedAuthPool (source : SourceConfig) (poolName : Option String) (kind : TokenKind)
    (st : ResolverState world) : Settled world PoolResolution :=
  match namedAuthPool source poolName kind with
  | some key => cachedResolution key st
  | none => (.ok emptyResolution, st)

/-- One pool after another: the tokens in order, the first failure. -/
def bothPools (first second : ResolverState world → Settled world PoolResolution)
    (st : ResolverState world) : Settled world PoolResolution :=
  match first st with
  | (.error message, st) => (.error message, st)
  | (.ok a, st) =>
    match second st with
    | (.error message, st) => (.error message, st)
    | (.ok b, st) => (.ok ⟨a.tokens ++ b.tokens, a.failureMessage.or b.failureMessage⟩, st)

/-- The tokens a policy gives: its bot's, its personal ones, or one after the other. -/
def tokensForPolicy
    (tokensForSource : ResolverState world → Option (Settled world (List AuthToken)))
    (source : SourceConfig) (policy : AuthPolicyConfig) (st : ResolverState world) :
    Option (Settled world PoolResolution) :=
  let bot := tokensForNamedAuthPool source policy.botPool .githubApp
  let pat := tokensForNamedAuthPool source policy.patPool .pat
  match policy.mode with
  | .inherit => (tokensForSource st).map fun settled =>
      (settled.1.map fun tokens => ⟨tokens, none⟩, settled.2)
  | .bot => some (bot st)
  | .pat => some (pat st)
  | .botThenPat => some (bothPools bot pat st)

/-- Out of fuel is `none`. -/
def tokensForSource (source : SourceConfig) :
    ℕ → ResolverState world → Option (Settled world (List AuthToken))
  | 0, _ => none
  | fuel + 1, st =>
    match source.authPolicy with
    | some policy =>
      (tokensForPolicy (tokensForSource source fuel) source policy st).map
        (recordHardFailure source)
    | none => some (recordHardFailure source (cachedResolution ⟨source, .own⟩ st))

/-- The entry of a project. -/
def projectEntryForPath (source : SourceConfig) (projectPath : String) : Option ProjectConfig :=
  source.projects.find? fun p => p.path = projectPath

/-- A project's named token pool: its tokens, or a recorded failure, or the
source's. -/
def tokensForTokenPool (source : SourceConfig) (poolName : String) (fuel : ℕ)
    (st : ResolverState world) : Option (Settled world (List AuthToken)) :=
  match cachedResolution ⟨source, .tokenPool poolName⟩ st with
  | (.error message, st) => some (.error message, st)
  | (.ok resolution, st) =>
    if resolution.tokens ≠ [] then some (.ok resolution.tokens, st)
    else if (nonEmpty resolution.failureMessage).isSome then
      some (recordHardFailure source (.ok resolution, st))
    else tokensForSource source fuel st

/-- The tokens of a project: its own policy or pool before the source's. -/
def tokensForProject (source : SourceConfig) (projectPath : String) (fuel : ℕ)
    (st : ResolverState world) : Option (Settled world (List AuthToken)) :=
  let entry := projectEntryForPath source projectPath
  match entry.bind (·.authPolicy) with
  | some policy =>
    if policy.mode = .inherit then tokensForSource source fuel st
    else
      (tokensForPolicy (tokensForSource source fuel) source policy st).map
        (recordHardFailure source)
  | none =>
    match nonEmpty (entry.bind (·.tokenPool)) with
    | none => tokensForSource source fuel st
    | some poolName =>
      match source.tokenPool? poolName with
      | none => tokensForSource source fuel st
      | some _ => tokensForTokenPool source poolName fuel st

/-! ## Sequences of calls -/

/-- What is asked of the resolver. -/
inductive AuthCall
  | source (source : SourceConfig)
  | project (source : SourceConfig) (projectPath : String)

/-- The source that is asked for. -/
def AuthCall.of : AuthCall → SourceConfig
  | .source s => s
  | .project s _ => s

/-- The call on a resolver's state. -/
def AuthCall.run (fuel : ℕ) (st : ResolverState world) :
    AuthCall → Option (Settled world (List AuthToken))
  | .source s => tokensForSource s fuel st
  | .project s projectPath => tokensForProject s projectPath fuel st

/-- The calls in order: what each settles with, and the resolver at the
end. -/
def runCalls (fuel : ℕ) : List AuthCall → ResolverState world →
    Option (List (Except String (List AuthToken)) × ResolverState world)
  | [], st => some ([], st)
  | call :: calls, st => do
    let (outcome, st) ← call.run fuel st
    let (outcomes, st) ← runCalls fuel calls st
    return (outcome :: outcomes, st)

end SymphonyBoard
