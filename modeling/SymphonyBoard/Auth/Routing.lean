import SymphonyBoard.Auth.Resolver
/-!
# Which credentials a call may use

The routes of the credential resolver, said without its cache: which pools
apply to a source or a project, what they yield, and which of their mints
fail, all read off the configuration and the world. `run_call` says that a
call settles with what its route yields, and `routingConfined_of_clear`
that any sequence of calls does, while no pool's failure goes unnamed: a
mint that throws an empty message counts as no failure at all.
-/

namespace SymphonyBoard

variable (world : World)

/-! ## What a pool yields -/

/-- The apps a pool mints for, and how its tokens are selected. -/
def poolApps (key : PoolKey) : List GitHubAppAuthConfig × AuthTokenStrategy :=
  let ofTokenPool (pool : TokenPoolConfig) :=
    (if key.source.kind = "github" then pool.githubApp.toList else [], AuthTokenStrategy.failover)
  match key.ref with
  | .own => ofTokenPool key.source.pool
  | .tokenPool name => ((key.source.tokenPool? name).map ofTokenPool).getD ([], .failover)
  | .authPool name =>
    match key.source.authPool? name with
    | some (.githubApp strategy apps) =>
      (if key.source.kind = "github" then apps else [], canonicalPoolStrategy strategy)
    | _ => ([], .failover)

/-- The variables of a pool's PATs. -/
def poolEnvNames (key : PoolKey) : List String :=
  let ofTokenPool (pool : TokenPoolConfig) :=
    tokenEnvNamesFromPool pool.tokenEnv pool.fallbackTokenEnvs
  match key.ref with
  | .own => ofTokenPool key.source.pool
  | .tokenPool name => ((key.source.tokenPool? name).map ofTokenPool).getD []
  | .authPool name =>
    match key.source.authPool? name with
    | some (.pat tokenEnv fallbackTokenEnvs) =>
      tokenEnvNamesFromPool (some tokenEnv) fallbackTokenEnvs
    | _ => []

/-- What the mints of some apps come to, in order; an app without its
variables set has none. -/
def mintOutcomes (w : PoolWorld) (source : SourceConfig) (strategy : AuthTokenStrategy)
    (apps : List (GitHubAppAuthConfig × ℕ)) : List (Except String AuthToken) :=
  apps.filterMap fun a =>
    match githubAppTokenRequest w source a.1 strategy with
    | .ok (some request) => some ((w.mint a.2 request).map fun token => appToken token a.1 strategy)
    | _ => none

/-- The tokens that could be minted. -/
def mintedTokens (outcomes : List (Except String AuthToken)) : List AuthToken :=
  outcomes.filterMap fun outcome => match outcome with
    | .ok token => some token
    | .error _ => none

/-- The messages of the Apps that could not. -/
def mintReasons (outcomes : List (Except String AuthToken)) : List String :=
  outcomes.filterMap fun outcome => match outcome with
    | .ok _ => none
    | .error reason => some reason

/-- What minting came to in a pool. -/
def poolOutcomes (key : PoolKey) : List (Except String AuthToken) :=
  mintOutcomes (world key) key.source (poolApps key).2 (poolApps key).1.zipIdx

/-- The tokens a pool can give: the minted ones, then the personal. -/
def poolYields (key : PoolKey) : List AuthToken :=
  mintedTokens (poolOutcomes world key) ++ patTokens (world key) (poolEnvNames key)

/-- Why the failed mints of a pool failed. -/
def poolFailures (key : PoolKey) : List String := mintReasons (poolOutcomes world key)

/-- Every key file the pool's apps name can be read. -/
def KeyFilesRead (key : PoolKey) : Prop :=
  ∀ app ∈ (poolApps key).1, ∃ request,
    githubAppTokenRequest (world key) key.source app (poolApps key).2 = .ok request

variable {world} {key : PoolKey} {source : SourceConfig}

theorem mintApps_eq (w : PoolWorld) (strategy : AuthTokenStrategy)
    (apps : List GitHubAppAuthConfig) (i : ℕ)
    (h : ∀ app ∈ apps, ∃ request, githubAppTokenRequest w source app strategy = .ok request) :
    mintApps w source strategy i apps =
      .ok ⟨mintedTokens (mintOutcomes w source strategy (apps.zipIdx i)),
        (mintReasons (mintOutcomes w source strategy (apps.zipIdx i))).getLast?⟩ := by
  induction apps generalizing i with
  | nil => rfl
  | cons app apps ih =>
    obtain ⟨request, hrequest⟩ := h app List.mem_cons_self
    have hrest := ih (i + 1) fun a ha => h a (List.mem_cons_of_mem _ ha)
    unfold mintApps
    rw [hrequest, hrest, List.zipIdx_cons]
    unfold mintOutcomes mintedTokens mintReasons
    cases request with
    | none => simp [hrequest, bind, Except.bind, pure, Except.pure]
    | some request =>
      cases hmint : w.mint i request with
      | ok token => simp [hrequest, hmint, bind, Except.bind, pure, Except.pure, Except.map]
      | error reason =>
        simp [hrequest, hmint, bind, Except.bind, pure, Except.pure, Except.map,
          List.getLast?_cons, Option.or_some]

theorem resolvePool_eq {pool : TokenPoolConfig} (happs : poolApps key =
      (if key.source.kind = "github" then pool.githubApp.toList else [], .failover))
    (henvs : poolEnvNames key = tokenEnvNamesFromPool pool.tokenEnv pool.fallbackTokenEnvs)
    (h : KeyFilesRead world key) :
    resolvePool (world key) key.source pool =
      .ok ⟨poolYields world key, (poolFailures world key).getLast?⟩ := by
  unfold KeyFilesRead at h
  rw [happs] at h
  unfold resolvePool
  simp only
  rw [mintApps_eq _ _ _ _ h]
  unfold poolYields poolFailures poolOutcomes
  rw [happs, henvs]
  rfl

/-- **A pool resolves to what it yields and its last failure**, where its
key files can be read. -/
theorem resolve_eq (h : KeyFilesRead world key) :
    resolve world key = .ok ⟨poolYields world key, (poolFailures world key).getLast?⟩ := by
  obtain ⟨source, ref⟩ := key
  unfold resolve
  cases ref with
  | own => exact resolvePool_eq rfl rfl h
  | tokenPool name =>
    cases hpool : source.tokenPool? name with
    | none =>
      simp [hpool, poolYields, poolFailures, poolOutcomes, poolApps, poolEnvNames, mintOutcomes,
        mintedTokens, mintReasons, patTokens, emptyResolution]
    | some pool =>
      simp only [hpool]
      exact resolvePool_eq (by simp [poolApps, hpool]) (by simp [poolEnvNames, hpool]) h
  | authPool name =>
    cases hpool : source.authPool? name with
    | none =>
      simp [hpool, poolYields, poolFailures, poolOutcomes, poolApps, poolEnvNames, mintOutcomes,
        mintedTokens, mintReasons, patTokens, emptyResolution]
    | some pool =>
      cases pool with
      | pat tokenEnv fallbackTokenEnvs =>
        simp [hpool, resolveAuthPool, poolYields, poolFailures, poolOutcomes, poolApps,
          poolEnvNames, mintOutcomes, mintedTokens, mintReasons]
      | githubApp strategy apps =>
        by_cases hkind : source.kind = "github"
        · simp only [hpool, resolveAuthPool, hkind]
          unfold KeyFilesRead at h
          simp only [poolApps, hpool, hkind, if_true] at h
          simp only [ne_eq, not_true_eq_false, if_false]
          rw [mintApps_eq _ _ _ _ h]
          simp [poolYields, poolFailures, poolOutcomes, poolApps, poolEnvNames, hpool, hkind,
            patTokens]
        · simp [hpool, hkind, resolveAuthPool, poolYields, poolFailures, poolOutcomes, poolApps,
            poolEnvNames, mintOutcomes, mintedTokens, mintReasons, patTokens, emptyResolution]

/-- A PAT pool mints nothing, and a bot pool has no PATs. -/
theorem poolFailures_pat {name : String} {tokenEnv : String} {fallbacks : Option (List String)}
    (h : source.authPool? name = some (.pat tokenEnv fallbacks)) :
    poolFailures world ⟨source, .authPool name⟩ = [] := by
  simp [poolFailures, poolOutcomes, poolApps, h, mintOutcomes, mintReasons]

theorem mem_patTokens_kind {w : PoolWorld} {envNames : List String} {t : AuthToken}
    (h : t ∈ patTokens w envNames) : t.kind = .pat := by
  obtain ⟨name, -, hname⟩ := List.mem_filterMap.mp h
  obtain ⟨value, -, rfl⟩ := Option.map_eq_some_iff.mp hname
  rfl

theorem mem_mintedTokens_kind {w : PoolWorld} {strategy : AuthTokenStrategy}
    {apps : List (GitHubAppAuthConfig × ℕ)} {t : AuthToken}
    (h : t ∈ mintedTokens (mintOutcomes w source strategy apps)) : t.kind = .githubApp := by
  obtain ⟨outcome, houtcome, ht⟩ := List.mem_filterMap.mp h
  obtain ⟨app, -, happ⟩ := List.mem_filterMap.mp houtcome
  split at happ
  · obtain rfl := Option.some.inj happ
    rename_i request _
    cases hmint : w.mint app.2 request with
    | ok token =>
      rw [hmint] at ht
      rw [← Option.some.inj ht]
      rfl
    | error reason =>
      rw [hmint] at ht
      cases ht
  · cases happ

/-! ## Routes -/

/-- What a source or a project is routed to: one pool object, or a policy
over the source's auth pools. -/
inductive Route
  | pool (key : PoolKey)
  | policy (source : SourceConfig) (policy : AuthPolicyConfig)

/-- The pools of a route, bots before PATs. -/
def Route.keys : Route → List PoolKey
  | .pool k => [k]
  | .policy s p =>
    let bot := (namedAuthPool s p.botPool .githubApp).toList
    let pat := (namedAuthPool s p.patPool .pat).toList
    match p.mode with
    | .inherit => []
    | .bot => bot
    | .pat => pat
    | .botThenPat => bot ++ pat

/-- The tokens a route can give, from its pools alone. -/
def Route.yields (world : World) (route : Route) : List AuthToken :=
  route.keys.flatMap (poolYields world)

/-- The failures of a route's pools. -/
def Route.failures (world : World) (route : Route) : List String :=
  route.keys.flatMap (poolFailures world)

/-- A single pool of the old form. -/
def Route.isTokenPool : Route → Bool
  | .pool ⟨_, .tokenPool _⟩ => true
  | _ => false

/-- A source's policy, or the source as a pool. -/
def sourceRoute (source : SourceConfig) : Route :=
  match source.authPolicy with
  | some policy => .policy source policy
  | none => .pool ⟨source, .own⟩

/-- The first entry of the path decides: its policy unless that inherits,
or else its token pool, or else the source. -/
def projectRoute (source : SourceConfig) (projectPath : String) : Route :=
  let entry := projectEntryForPath source projectPath
  match (entry.bind (·.authPolicy)).filter (fun policy => policy.mode ≠ .inherit) with
  | some policy => .policy source policy
  | none =>
    match (nonEmpty (entry.bind (·.tokenPool))).filter
        (fun name => (source.tokenPool? name).isSome) with
    | some name => .pool ⟨source, .tokenPool name⟩
    | none => sourceRoute source

/-- The route of a call. -/
def AuthCall.route : AuthCall → Route
  | .source s => sourceRoute s
  | .project s projectPath => projectRoute s projectPath

/-- The call's own route yields no token and none of its mints failed, and
it is a token pool: then the source's route stands in. -/
def FallsBack (world : World) (call : AuthCall) : Prop :=
  call.route.isTokenPool = true ∧ call.route.yields world = [] ∧ call.route.failures world = []

instance (world : World) (call : AuthCall) : Decidable (FallsBack world call) :=
  inferInstanceAs (Decidable (_ ∧ _ ∧ _))

/-- The route that applies in the end. -/
def effectiveRoute (world : World) (call : AuthCall) : Route :=
  if FallsBack world call then sourceRoute call.of else call.route

/-- The routes a call looks at. -/
def consulted (world : World) (call : AuthCall) : List Route :=
  [call.route, effectiveRoute world call]

/-- The key files of a route can be read, and if it yields no token, its
last failed mint (if any) gives a reason. -/
structure Route.Clear (world : World) (route : Route) : Prop where
  readable : ∀ key ∈ route.keys, KeyFilesRead world key
  spoken : route.yields world = [] → (route.failures world).getLast? ≠ some ""

/-! ## One call -/

variable {st : ResolverState world} {route : Route}

/-- A resolution of a route, over any cache. -/
def ResolvesTo (world : World) (route : Route) (settled : Settled world PoolResolution)
    (st : ResolverState world) : Prop :=
  settled.1 = .ok ⟨route.yields world, (route.failures world).getLast?⟩ ∧
    settled.2.hardMintFailures = st.hardMintFailures

theorem cachedResolution_resolvesTo (h : KeyFilesRead world key) (st : ResolverState world) :
    ResolvesTo world (.pool key) (cachedResolution key st) st := by
  refine ⟨?_, rfl⟩
  unfold cachedResolution Route.yields Route.failures Route.keys
  simp [resolve_eq h]

/-- A named pool resolves to what it yields, and to nothing if it is not
there. -/
theorem named_eq {poolName : Option String} {kind : TokenKind}
    (h : ∀ key ∈ (namedAuthPool source poolName kind).toList, KeyFilesRead world key)
    (st : ResolverState world) :
    (tokensForNamedAuthPool source poolName kind st).1 =
        .ok ⟨(namedAuthPool source poolName kind).toList.flatMap (poolYields world),
          ((namedAuthPool source poolName kind).toList.flatMap (poolFailures world)).getLast?⟩ ∧
      (tokensForNamedAuthPool source poolName kind st).2.hardMintFailures =
        st.hardMintFailures := by
  unfold tokensForNamedAuthPool
  cases hkey : namedAuthPool source poolName kind with
  | none => exact ⟨rfl, rfl⟩
  | some key =>
    rw [hkey] at h
    have hresolves := cachedResolution_resolvesTo (h key (by simp)) st
    simpa [ResolvesTo, Route.yields, Route.failures, Route.keys] using hresolves

/-- A PAT pool of a policy has no failures. -/
theorem named_pat_failures (source : SourceConfig) (poolName : Option String) :
    (namedAuthPool source poolName .pat).toList.flatMap (poolFailures world) = [] := by
  cases hkey : namedAuthPool source poolName .pat with
  | none => rfl
  | some key =>
    obtain ⟨name, -, hname⟩ := Option.bind_eq_some_iff.mp hkey
    split at hname
    · rename_i tokenEnv fallbacks hpool hkind
      rw [← Option.some.inj hname]
      have hnil : poolFailures world ⟨source, .authPool name⟩ = [] := poolFailures_pat hpool
      simpa using hnil
    · rename_i hkind
      cases hkind
    · cases hname

theorem bothPools_eq {first second : ResolverState world → Settled world PoolResolution}
    {st : ResolverState world} {a b : PoolResolution} (ha : (first st).1 = .ok a)
    (hb : (second (first st).2).1 = .ok b) :
    bothPools first second st =
      (.ok ⟨a.tokens ++ b.tokens, a.failureMessage.or b.failureMessage⟩,
        (second (first st).2).2) := by
  unfold bothPools
  generalize first st = settled at ha hb
  obtain ⟨outcome, st'⟩ := settled
  simp only at ha hb ⊢
  subst ha
  simp only
  generalize second st' = settled at hb
  obtain ⟨outcome, st''⟩ := settled
  simp only at hb ⊢
  subst hb
  rfl

theorem tokensForPolicy_resolvesTo {policy : AuthPolicyConfig} (hmode : policy.mode ≠ .inherit)
    (h : ∀ key ∈ (Route.policy source policy).keys, KeyFilesRead world key)
    (tokensForSource : ResolverState world → Option (Settled world (List AuthToken)))
    (st : ResolverState world) :
    ∃ settled, tokensForPolicy tokensForSource source policy st = some settled ∧
      ResolvesTo world (.policy source policy) settled st := by
  unfold tokensForPolicy ResolvesTo Route.yields Route.failures
  unfold Route.keys at h ⊢
  cases hm : policy.mode with
  | inherit => exact absurd hm hmode
  | bot =>
    simp only [hm] at h ⊢
    exact ⟨_, rfl, named_eq h st⟩
  | pat =>
    simp only [hm] at h ⊢
    exact ⟨_, rfl, named_eq h st⟩
  | botThenPat =>
    simp only [hm, List.mem_append] at h ⊢
    have hbot := named_eq (fun key hk => h key (Or.inl hk)) st
    have hpat := named_eq (fun key hk => h key (Or.inr hk))
      (tokensForNamedAuthPool source policy.botPool .githubApp st).2
    refine ⟨_, rfl, ?_⟩
    rw [bothPools_eq hbot.1 hpat.1]
    refine ⟨?_, hpat.2.trans hbot.2⟩
    simp [List.flatMap_append, named_pat_failures]

/-- What a recorded failure adds. -/
def recordedAfter (world : World) (source : SourceConfig) (route : Route)
    (failures : OrdMap String String) : OrdMap String String :=
  match route.yields world, (route.failures world).getLast? with
  | [], some reason => failures.set source.sourceId reason
  | _, _ => failures

/-- A call settles with what its route yields, and records the failure of a
route without a token. -/
def SettlesOn (world : World) (source : SourceConfig) (route : Route)
    (settled : Settled world (List AuthToken)) (st : ResolverState world) : Prop :=
  settled.1 = .ok (route.yields world) ∧
    settled.2.hardMintFailures = recordedAfter world source route st.hardMintFailures

theorem recordHardFailure_settlesOn (hclear : route.Clear world)
    {settled : Settled world PoolResolution} (h : ResolvesTo world route settled st) :
    SettlesOn world source route (recordHardFailure source settled) st := by
  obtain ⟨outcome, st'⟩ := settled
  obtain ⟨rfl, hst⟩ := h
  unfold SettlesOn recordedAfter recordHardFailure
  simp only
  cases hyields : route.yields world with
  | nil =>
    have hspoken := hclear.spoken hyields
    cases hlast : (route.failures world).getLast? with
    | none => exact ⟨rfl, hst⟩
    | some reason =>
      have hne : nonEmpty (some reason) = some reason := by
        rw [hlast] at hspoken
        simpa [nonEmpty] using hspoken
      rw [hne]
      exact ⟨rfl, congrArg (·.set source.sourceId reason) hst⟩
  | cons t ts => exact ⟨rfl, hst⟩

theorem tokensForSource_settlesOn (hpolicy : ∀ p, source.authPolicy = some p → p.mode ≠ .inherit)
    (hclear : (sourceRoute source).Clear world) {fuel : ℕ} (hfuel : 0 < fuel)
    (st : ResolverState world) :
    ∃ settled, tokensForSource source fuel st = some settled ∧
      SettlesOn world source (sourceRoute source) settled st := by
  obtain ⟨fuel, rfl⟩ := Nat.exists_eq_succ_of_ne_zero (by omega : fuel ≠ 0)
  unfold tokensForSource
  unfold sourceRoute at hclear ⊢
  cases hp : source.authPolicy with
  | none =>
    rw [hp] at hclear
    simp only at hclear ⊢
    have hresolves := cachedResolution_resolvesTo (hclear.readable ⟨source, .own⟩ (by
      simp [Route.keys])) st
    exact ⟨_, rfl, recordHardFailure_settlesOn hclear hresolves⟩
  | some policy =>
    rw [hp] at hclear
    simp only at hclear ⊢
    obtain ⟨settled, hsettled, hresolves⟩ := tokensForPolicy_resolvesTo (hpolicy policy hp)
      hclear.readable (tokensForSource source fuel) st
    refine ⟨_, by rw [hsettled]; rfl, recordHardFailure_settlesOn hclear hresolves⟩

theorem effectiveRoute_of_source {call : AuthCall} (h : call.route = sourceRoute call.of) :
    effectiveRoute world call = sourceRoute call.of := by
  unfold effectiveRoute
  rw [h]
  exact ite_self _

theorem effectiveRoute_of_not {call : AuthCall} (h : ¬FallsBack world call) :
    effectiveRoute world call = call.route := if_neg h

theorem projectRoute_policy {projectPath : String} {policy : AuthPolicyConfig}
    (h : (projectEntryForPath source projectPath).bind (·.authPolicy) = some policy)
    (hmode : policy.mode ≠ .inherit) : projectRoute source projectPath = .policy source policy := by
  have hkept : (some policy).filter (fun policy => policy.mode ≠ .inherit) = some policy := by
    simp [Option.filter_some, hmode]
  unfold projectRoute
  simp only [h, hkept]

theorem projectRoute_tokenPool {projectPath name : String} {pool : TokenPoolConfig}
    (h : (projectEntryForPath source projectPath).bind (·.authPolicy) = none)
    (hname : nonEmpty ((projectEntryForPath source projectPath).bind (·.tokenPool)) = some name)
    (hpool : source.tokenPool? name = some pool) :
    projectRoute source projectPath = .pool ⟨source, .tokenPool name⟩ := by
  have hkept : (some name).filter (fun name => (source.tokenPool? name).isSome) = some name := by
    simp [Option.filter_some, hpool]
  unfold projectRoute
  simp only [h, hname, hkept, Option.filter_none]

theorem projectRoute_source {projectPath : String}
    (h : ((projectEntryForPath source projectPath).bind (·.authPolicy)).filter
      (fun policy => policy.mode ≠ .inherit) = none)
    (hname : (nonEmpty ((projectEntryForPath source projectPath).bind (·.tokenPool))).filter
      (fun name => (source.tokenPool? name).isSome) = none) :
    projectRoute source projectPath = sourceRoute source := by
  unfold projectRoute
  simp only [h, hname]

/-- A routed project with an inheriting policy names no token pool. -/
theorem tokenPool_of_policy (hroutable : Routable source) {projectPath : String}
    {policy : AuthPolicyConfig}
    (h : (projectEntryForPath source projectPath).bind (·.authPolicy) = some policy) :
    (projectEntryForPath source projectPath).bind (·.tokenPool) = none := by
  obtain ⟨entry, hentry, hpolicy⟩ := Option.bind_eq_some_iff.mp h
  have hmem : entry ∈ source.projects := List.mem_of_find?_eq_some hentry
  rw [hentry, Option.bind_some, hroutable.project entry hmem policy hpolicy]

theorem tokensForTokenPool_settlesOn {projectPath name : String} {fuel : ℕ}
    (hroute : projectRoute source projectPath = .pool ⟨source, .tokenPool name⟩)
    (hpolicy : ∀ p, source.authPolicy = some p → p.mode ≠ .inherit) (hfuel : 0 < fuel)
    (hclear : ∀ route ∈ consulted world (.project source projectPath), route.Clear world)
    (st : ResolverState world) :
    ∃ settled, tokensForTokenPool source name fuel st = some settled ∧
      SettlesOn world source (effectiveRoute world (.project source projectPath)) settled st := by
  have hown : (AuthCall.project source projectPath).route = .pool ⟨source, .tokenPool name⟩ :=
    hroute
  have hpool := hclear _ List.mem_cons_self
  rw [hown] at hpool
  have hresolves := cachedResolution_resolvesTo
    (hpool.readable ⟨source, .tokenPool name⟩ (by simp [Route.keys])) st
  unfold tokensForTokenPool
  generalize cachedResolution ⟨source, .tokenPool name⟩ st = settled at hresolves
  obtain ⟨outcome, st'⟩ := settled
  obtain ⟨houtcome, hst⟩ := hresolves
  simp only at houtcome hst
  subst houtcome
  simp only
  by_cases hyields : (Route.pool ⟨source, .tokenPool name⟩).yields world = []
  · rw [if_neg (by simpa using hyields)]
    cases hlast : ((Route.pool ⟨source, .tokenPool name⟩).failures world).getLast? with
    | none =>
      -- no token and no failure: the source's route stands in
      have hback : FallsBack world (.project source projectPath) := by
        unfold FallsBack
        rw [hown]
        exact ⟨rfl, hyields, List.getLast?_eq_none_iff.mp hlast⟩
      have heffective : effectiveRoute world (.project source projectPath) =
          sourceRoute source := if_pos hback
      rw [heffective]
      have hsource := hclear _ (List.mem_cons_of_mem _ List.mem_cons_self)
      rw [heffective] at hsource
      obtain ⟨settled, hsettled, hok, hrecorded⟩ :=
        tokensForSource_settlesOn hpolicy hsource hfuel st'
      refine ⟨settled, ?_, hok, ?_⟩
      · simpa [nonEmpty] using hsettled
      · rw [hrecorded, hst]
    | some reason =>
      have hnot : ¬FallsBack world (.project source projectPath) := by
        rintro ⟨-, -, hnone⟩
        rw [hown] at hnone
        rw [hnone] at hlast
        cases hlast
      rw [effectiveRoute_of_not hnot, hown]
      have hspoken := hpool.spoken hyields
      rw [hlast] at hspoken
      have hsome : (nonEmpty (some reason)).isSome = true := by
        simpa [nonEmpty] using hspoken
      rw [if_pos hsome]
      refine ⟨_, rfl, ?_⟩
      have hresolved : ResolvesTo world (.pool ⟨source, .tokenPool name⟩)
          (.ok ⟨(Route.pool ⟨source, .tokenPool name⟩).yields world, some reason⟩, st') st :=
        ⟨by rw [hlast], hst⟩
      exact recordHardFailure_settlesOn hpool hresolved
  · rw [if_pos (by simpa using hyields)]
    have hnot : ¬FallsBack world (.project source projectPath) := by
      rintro ⟨-, hnil, -⟩
      rw [hown] at hnil
      exact hyields hnil
    rw [effectiveRoute_of_not hnot, hown]
    refine ⟨_, rfl, rfl, ?_⟩
    unfold recordedAfter
    cases hy : (Route.pool ⟨source, .tokenPool name⟩).yields world with
    | nil => exact absurd hy hyields
    | cons t ts => exact hst

/-- **A call settles with what the route that applies yields.** -/
theorem run_call {call : AuthCall} (hroutable : Routable call.of)
    (hclear : ∀ route ∈ consulted world call, route.Clear world) {fuel : ℕ} (hfuel : 0 < fuel)
    (st : ResolverState world) :
    ∃ settled, call.run fuel st = some settled ∧
      SettlesOn world call.of (effectiveRoute world call) settled st := by
  have heffective := hclear _ (List.mem_cons_of_mem _ List.mem_cons_self)
  have hsource : call.route = sourceRoute call.of →
      ∃ settled, tokensForSource call.of fuel st = some settled ∧
        SettlesOn world call.of (effectiveRoute world call) settled st := by
    intro h
    rw [effectiveRoute_of_source h] at heffective ⊢
    exact tokensForSource_settlesOn hroutable.policy heffective hfuel st
  cases call with
  | source s => exact hsource rfl
  | project s projectPath =>
    unfold AuthCall.run tokensForProject
    simp only
    -- a project's own policy comes before its pool, and its pool before the source
    cases hpolicy : (projectEntryForPath s projectPath).bind (·.authPolicy) with
    | some policy =>
      simp only
      by_cases hmode : policy.mode = .inherit
      · have hnone := tokenPool_of_policy hroutable hpolicy
        rw [if_pos hmode]
        refine hsource (projectRoute_source ?_ ?_)
        · simp [hpolicy, hmode]
        · have hnoPool : nonEmpty ((projectEntryForPath s projectPath).bind (·.tokenPool)) = none :=
            congrArg nonEmpty hnone
          rw [hnoPool, Option.filter_none]
      · have hroute : (AuthCall.project s projectPath).route = .policy s policy :=
          projectRoute_policy hpolicy hmode
        have hnot : ¬FallsBack world (.project s projectPath) := by
          rintro ⟨htoken, -, -⟩
          rw [hroute] at htoken
          cases htoken
        rw [if_neg hmode]
        rw [effectiveRoute_of_not hnot, hroute] at heffective ⊢
        obtain ⟨settled, hsettled, hresolves⟩ := tokensForPolicy_resolvesTo hmode
          heffective.readable (tokensForSource s fuel) st
        rw [hsettled]
        exact ⟨_, rfl, recordHardFailure_settlesOn heffective hresolves⟩
    | none =>
      simp only
      cases hname : nonEmpty ((projectEntryForPath s projectPath).bind (·.tokenPool)) with
      | none =>
        refine hsource (projectRoute_source ?_ ?_)
        · simp [hpolicy]
        · simp [hname]
      | some name =>
        simp only
        cases hpool : s.tokenPool? name with
        | none =>
          refine hsource (projectRoute_source ?_ ?_)
          · simp [hpolicy]
          · simp [hname, hpool]
        | some pool =>
          exact tokensForTokenPool_settlesOn (projectRoute_tokenPool hpolicy hname hpool)
            hroutable.policy hfuel hclear st

/-! ## Sequences of calls -/

/-- A call whose route yields no token, while a mint of it failed. -/
def Unresolved (world : World) (call : AuthCall) : Prop :=
  (effectiveRoute world call).yields world = [] ∧ (effectiveRoute world call).failures world ≠ []

theorem runCalls_eq {fuel : ℕ} (hfuel : 0 < fuel) (calls : List AuthCall)
    (hroutable : ∀ call ∈ calls, Routable call.of)
    (hclear : ∀ call ∈ calls, ∀ route ∈ consulted world call, route.Clear world)
    (st : ResolverState world) :
    ∃ st', runCalls fuel calls st =
        some (calls.map fun call => .ok ((effectiveRoute world call).yields world), st') ∧
      st'.hardMintFailures = calls.foldl
        (fun failures call => recordedAfter world call.of (effectiveRoute world call) failures)
        st.hardMintFailures := by
  induction calls generalizing st with
  | nil => exact ⟨st, rfl, rfl⟩
  | cons call calls ih =>
    obtain ⟨⟨outcome, mid⟩, hcall, houtcome, hmid⟩ := run_call (hroutable call List.mem_cons_self)
      (hclear call List.mem_cons_self) hfuel st
    obtain ⟨st', hrest, hst'⟩ := ih (fun c hc => hroutable c (List.mem_cons_of_mem _ hc))
      (fun c hc => hclear c (List.mem_cons_of_mem _ hc)) mid
    simp only at houtcome hmid
    refine ⟨st', ?_, ?_⟩
    · unfold runCalls
      rw [hcall]
      simp only [Option.bind_eq_bind, Option.bind_some]
      rw [hrest, houtcome]
      rfl
    · rw [hst', hmid]
      rfl

theorem isSome_recordedAfter (source : SourceConfig) (route : Route)
    (failures : OrdMap String String) (sourceId : String) :
    ((recordedAfter world source route failures).get? sourceId).isSome ↔
      (failures.get? sourceId).isSome ∨
        (source.sourceId = sourceId ∧ route.yields world = [] ∧ route.failures world ≠ []) := by
  unfold recordedAfter
  split
  · rename_i reason hyields hlast
    have hne : route.failures world ≠ [] := by
      intro hnil
      rw [hnil] at hlast
      cases hlast
    rw [OrdMap.get?_set]
    by_cases hid : sourceId = source.sourceId
    · simp [hid, hyields, hne]
    · simp [Ne.symm hid]
  · rename_i hnot
    refine ⟨Or.inl, ?_⟩
    rintro (h | ⟨-, hyields, hne⟩)
    · exact h
    · exact absurd (List.getLast?_eq_some_getLast hne) (hnot _ hyields)

/-- What a source is remembered for is one of its calls. -/
theorem isSome_foldl_recordedAfter (sourceId : String) (calls : List AuthCall)
    (failures : OrdMap String String) :
    ((calls.foldl (fun failures call => recordedAfter world call.of (effectiveRoute world call)
        failures) failures).get? sourceId).isSome ↔
      (failures.get? sourceId).isSome ∨
        ∃ call ∈ calls, call.of.sourceId = sourceId ∧ Unresolved world call := by
  induction calls generalizing failures with
  | nil => simp
  | cons call calls ih =>
    rw [List.foldl_cons, ih, isSome_recordedAfter, or_assoc, List.exists_mem_cons_iff]
    rfl

/-! ## Confinement -/

/-- The tokens a call may settle with. -/
structure Confined (world : World) (call : AuthCall) (tokens : List AuthToken) : Prop where
  /-- They are tokens of the pools of the route that applies. -/
  applicable : ∀ t ∈ tokens, ∃ key ∈ (effectiveRoute world call).keys, t ∈ poolYields world key
  /-- Another route than the call's own applies only where that is a token
  pool without a token and without a failed mint. -/
  fallback : ¬FallsBack world call → effectiveRoute world call = call.route
  bot : ∀ source policy, effectiveRoute world call = .policy source policy →
    policy.mode = .bot → ∀ t ∈ tokens, t.kind = .githubApp
  pat : ∀ source policy, effectiveRoute world call = .policy source policy →
    policy.mode = .pat → ∀ t ∈ tokens, t.kind = .pat
  botThenPat : ∀ source policy, effectiveRoute world call = .policy source policy →
    policy.mode = .botThenPat → ∃ bots pats, tokens = bots ++ pats ∧
      (∀ t ∈ bots, t.kind = .githubApp) ∧ ∀ t ∈ pats, t.kind = .pat

/-- A sequence of calls, from a new resolver: every call settles, with
tokens confined to its route, and a source is remembered to have failed
just when one of its calls resolved to no token while a mint of its route
failed. -/
def RoutingConfined (world : World) (sources : List SourceConfig) (calls : List AuthCall) : Prop :=
  ∀ fuel > 0, ∃ outcomes, ∃ st : ResolverState world,
    runCalls fuel calls .init = some (outcomes, st) ∧
      List.Forall₂ (fun call outcome => ∃ tokens, outcome = .ok tokens ∧ Confined world call tokens)
        calls outcomes ∧
      ∀ source ∈ sources, (hardMintFailure st source).isSome ↔
        ∃ c ∈ calls.zip outcomes, c.1.of = source ∧ c.2 = .ok [] ∧
          (effectiveRoute world c.1).failures world ≠ []

theorem poolYields_bot {poolName : Option String} {t : AuthToken}
    (hkey : key ∈ (namedAuthPool source poolName .githubApp).toList)
    (ht : t ∈ poolYields world key) : t.kind = .githubApp := by
  obtain ⟨name, -, hname⟩ := Option.bind_eq_some_iff.mp (Option.mem_toList.mp hkey)
  split at hname
  · rename_i hkind
    cases hkind
  · rename_i strategy apps hpool hkind
    rw [← Option.some.inj hname] at ht
    rcases List.mem_append.mp ht with hminted | hpat
    · exact mem_mintedTokens_kind hminted
    · simp [poolEnvNames, hpool, patTokens] at hpat
  · cases hname

theorem poolYields_pat {poolName : Option String} {t : AuthToken}
    (hkey : key ∈ (namedAuthPool source poolName .pat).toList)
    (ht : t ∈ poolYields world key) : t.kind = .pat := by
  obtain ⟨name, -, hname⟩ := Option.bind_eq_some_iff.mp (Option.mem_toList.mp hkey)
  split at hname
  · rename_i tokenEnv fallbacks hpool hkind
    rw [← Option.some.inj hname] at ht
    rcases List.mem_append.mp ht with hminted | hpat
    · simp [poolOutcomes, poolApps, hpool, mintOutcomes, mintedTokens] at hminted
    · exact mem_patTokens_kind hpat
  · rename_i hkind
    cases hkind
  · cases hname

theorem confined_yields (world : World) (call : AuthCall) :
    Confined world call ((effectiveRoute world call).yields world) where
  applicable t ht := List.mem_flatMap.mp ht
  fallback h := effectiveRoute_of_not h
  bot source policy hroute hmode t ht := by
    obtain ⟨key, hkey, ht⟩ := List.mem_flatMap.mp ht
    rw [hroute] at hkey
    unfold Route.keys at hkey
    simp only [hmode] at hkey
    exact poolYields_bot hkey ht
  pat source policy hroute hmode t ht := by
    obtain ⟨key, hkey, ht⟩ := List.mem_flatMap.mp ht
    rw [hroute] at hkey
    unfold Route.keys at hkey
    simp only [hmode] at hkey
    exact poolYields_pat hkey ht
  botThenPat source policy hroute hmode := by
    have hkeys : (Route.policy source policy).keys =
        (namedAuthPool source policy.botPool .githubApp).toList ++
          (namedAuthPool source policy.patPool .pat).toList := by
      unfold Route.keys
      simp only [hmode]
    rw [hroute]
    unfold Route.yields
    rw [hkeys, List.flatMap_append]
    refine ⟨_, _, rfl, ?_, ?_⟩
    · intro t ht
      obtain ⟨key, hkey, ht⟩ := List.mem_flatMap.mp ht
      exact poolYields_bot hkey ht
    · intro t ht
      obtain ⟨key, hkey, ht⟩ := List.mem_flatMap.mp ht
      exact poolYields_pat hkey ht

theorem hardMintFailure_iff {st : ResolverState world} {sources : List SourceConfig}
    (hids : (sources.map (·.sourceId)).Nodup) {calls : List AuthCall}
    (hcalls : ∀ call ∈ calls, call.of ∈ sources)
    (hst : st.hardMintFailures = calls.foldl
      (fun failures call => recordedAfter world call.of (effectiveRoute world call) failures)
      .empty) (hsource : source ∈ sources) :
    (hardMintFailure st source).isSome ↔
      ∃ call ∈ calls, call.of = source ∧ Unresolved world call := by
  unfold hardMintFailure
  rw [hst, isSome_foldl_recordedAfter]
  simp only [OrdMap.get?_empty, Option.isSome_none, Bool.false_eq_true, false_or]
  refine exists_congr fun call => and_congr_right fun hcall => and_congr_left' ?_
  exact ⟨fun h => List.inj_on_of_nodup_map hids (hcalls call hcall) hsource h, fun h => h ▸ rfl⟩

/-- **The calls over an accepted configuration are confined**, in any order,
while every key file named can be read and no route is left without a token
by a mint that failed with an empty message. -/
theorem routingConfined_of_clear {isValidTimezone : String → Bool}
    (c : AcceptedConfig isValidTimezone) (world : World) (sources : List SourceConfig)
    (hsources : ∀ source ∈ sources, source ∈ c.cfg.sources)
    (hids : (sources.map (·.sourceId)).Nodup) (calls : List AuthCall)
    (hcalls : ∀ call ∈ calls, call.of ∈ sources)
    (hclear : ∀ call ∈ calls, ∀ route ∈ consulted world call, route.Clear world) :
    RoutingConfined world sources calls := by
  intro fuel hfuel
  have hroutable : ∀ call ∈ calls, Routable call.of := fun call hcall =>
    c.routable (hsources _ (hcalls call hcall))
  obtain ⟨st, hrun, hst⟩ := runCalls_eq hfuel calls hroutable hclear .init
  refine ⟨_, st, hrun, ?_, ?_⟩
  · rw [List.forall₂_map_right_iff]
    refine List.forall₂_same.mpr fun call _ => ⟨_, rfl, confined_yields world call⟩
  · intro source hsource
    rw [hardMintFailure_iff hids hcalls hst hsource]
    unfold Unresolved
    rw [← List.map_prod_left_eq_zip]
    constructor
    · rintro ⟨call, hcall, hof, hnil, hfailed⟩
      exact ⟨_, List.mem_map_of_mem hcall, hof, congrArg Except.ok hnil, hfailed⟩
    · rintro ⟨pair, hpair, hof, hok, hfailed⟩
      obtain ⟨call, hcall, rfl⟩ := List.mem_map.mp hpair
      exact ⟨call, hcall, hof, Except.ok.inj hok, hfailed⟩

/-! ## A pool whose only mint fails -/

namespace BotPool

/-- An App of the configuration. -/
def app : GitHubAppAuthConfig :=
  { name := none, appIdEnv := "APP_ID", installationIdEnv := "INSTALLATION_ID"
    privateKeyEnv := some "APP_KEY", privateKeyBase64Env := none, privateKeyPathEnv := none }

/-- A source with a PAT, whose one project uses a pool with one bot. -/
def raw : Json :=
  .obj [("db_path", .str "data/board.db"), ("sources", .arr [.obj [
    ("source_id", .str "github:github.com"), ("kind", .str "github"),
    ("host", .str "github.com"), ("token_env", .str "GITHUB_TOKEN"),
    ("graphql_url", .str "https://api.github.com/graphql"),
    ("token_pools", .obj [("bots", .obj [("github_app", .obj [
      ("app_id_env", .str "APP_ID"), ("installation_id_env", .str "INSTALLATION_ID"),
      ("private_key_env", .str "APP_KEY")])])]),
    ("projects", .arr [.obj [("path", .str "org/app"), ("token_pool", .str "bots")]])]])]

/-- A source with a pool of Apps for its project. -/
def github : SourceConfig :=
  { sourceId := "github:github.com", kind := "github", host := "github.com", enabled := none
    pool := { tokenEnv := some "GITHUB_TOKEN", fallbackTokenEnvs := none, githubApp := none }
    tokenPools := some [("bots",
      { tokenEnv := none, fallbackTokenEnvs := none, githubApp := some app })]
    authPools := none, authPolicy := none, restUrl := none
    projects := [{ path := "org/app", tokenPool := some "bots", authPolicy := none }] }

/-- The configuration passes its checks. -/
def accepted : AcceptedConfig (· = "UTC") where
  raw := raw
  label := "config"
  cfg := { sources := [github] }
  typed := by rfl
  accepted := by decide

/-- Every variable is set, and every mint throws. -/
def failingWorld (reason : String) : World := fun _ =>
  { overlay := fun _ => none
    processEnv := fun name => some name
    readFile := fun path => .ok path
    decodeBase64 := id
    mint := fun _ _ => .error reason }

/-- The tokens of the project are asked for. -/
def call : AuthCall := .project github "org/app"

/-- The project's pool. -/
def bots : PoolKey := ⟨github, .tokenPool "bots"⟩

theorem effectiveRoute_revoked : effectiveRoute (failingWorld "revoked") call = .pool bots :=
  effectiveRoute_of_not (by decide +kernel)

theorem effectiveRoute_mute : effectiveRoute (failingWorld "") call = .pool bots :=
  effectiveRoute_of_not (by decide +kernel)

end BotPool

open BotPool in
theorem routingConfined_revoked : RoutingConfined (failingWorld "revoked") [github] [call] := by
  refine routingConfined_of_clear accepted _ _ (fun source h => h) (List.nodup_singleton _) _
    ?_ ?_
  · intro c hc
    rw [List.mem_singleton.mp hc]
    exact List.mem_singleton_self _
  · intro c hc route hroute
    rw [List.mem_singleton.mp hc] at hroute
    have hpool : route = .pool bots := by
      unfold consulted at hroute
      rw [effectiveRoute_revoked] at hroute
      rcases List.mem_pair.mp hroute with rfl | rfl
      · rfl
      · rfl
    subst hpool
    constructor
    · intro key hkey a ha
      rw [List.mem_singleton.mp hkey] at ha ⊢
      rw [List.mem_singleton.mp ha]
      exact ⟨_, rfl⟩
    · intro _
      decide

open BotPool in
/-- The mint throws an empty message, and the project gets the PAT of the
source. -/
theorem not_routingConfined : ¬∀ (isValidTimezone : String → Bool)
    (c : AcceptedConfig isValidTimezone) (world : World) (sources : List SourceConfig),
    (∀ source ∈ sources, source ∈ c.cfg.sources) → (sources.map (·.sourceId)).Nodup →
      ∀ calls : List AuthCall, (∀ call ∈ calls, call.of ∈ sources) →
        RoutingConfined world sources calls := by
  intro h
  have hcalls : ∀ c ∈ [call], c.of ∈ [github] := by
    intro c hc
    rw [List.mem_singleton.mp hc]
    exact List.mem_singleton_self _
  obtain ⟨outcomes, st, hrun, hconfined, -⟩ := h _ accepted (failingWorld "") [github]
    (fun source h => h) (List.nodup_singleton _) [call] hcalls 1 Nat.one_pos
  have heval : (runCalls 1 [call] (.init : ResolverState (failingWorld ""))).map Prod.fst =
      some [.ok [patToken "GITHUB_TOKEN" "GITHUB_TOKEN"]] := by rfl
  rw [hrun] at heval
  obtain rfl := Option.some.inj heval
  obtain ⟨tokens, htokens, happlicable⟩ := (List.forall₂_cons.mp hconfined).1
  obtain rfl := Except.ok.inj htokens
  obtain ⟨key, hkey, hyields⟩ := happlicable.applicable _ List.mem_cons_self
  rw [effectiveRoute_mute] at hkey
  rw [List.mem_singleton.mp hkey] at hyields
  have hnone : poolYields (failingWorld "") bots = [] := by rfl
  rw [hnone] at hyields
  cases hyields

end SymphonyBoard
