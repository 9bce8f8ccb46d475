import SymphonyBoard.Config.Errors
import SymphonyBoard.Model.Types
/-!
# The configuration

`AppConfig` of `src/config.ts` with the fields a sync run and the
credential resolver read, and the documents that are of that type:
`asAppConfig` is the cast `raw as AppConfig`. `AcceptedConfig` is a
document of the type that `configErrors` finds nothing wrong with, so what
it checks holds of every value.
-/

namespace SymphonyBoard

open Json

/-- Which tokens a policy takes. -/
inductive AuthPolicyMode
  | inherit
  | pat
  | bot
  | botThenPat
deriving DecidableEq, Repr

/-- How the tokens of a pool take turns. -/
inductive AuthTokenStrategy
  | failover
  | budgetAware
  | roundRobin
deriving DecidableEq, Repr

/-- A policy, with the names of its pools. -/
structure AuthPolicyConfig where
  mode : AuthPolicyMode
  patPool : Option String
  botPool : Option String
deriving DecidableEq

/-- Where an App's secrets are. -/
structure GitHubAppAuthConfig where
  name : Option String
  appIdEnv : String
  installationIdEnv : String
  privateKeyEnv : Option String
  privateKeyBase64Env : Option String
  privateKeyPathEnv : Option String
deriving DecidableEq

/-- A pool of the old form. -/
structure TokenPoolConfig where
  tokenEnv : Option String
  fallbackTokenEnvs : Option (List String)
  githubApp : Option GitHubAppAuthConfig
deriving DecidableEq

/-- A named pool: personal tokens or Apps. -/
inductive AuthPoolConfig
  | pat (tokenEnv : String) (fallbackTokenEnvs : Option (List String))
  | githubApp (strategy : Option AuthTokenStrategy) (apps : List GitHubAppAuthConfig)
deriving DecidableEq

/-- A bare path, or an object with one. -/
structure ProjectConfig where
  path : String
  tokenPool : Option String
  authPolicy : Option AuthPolicyConfig
deriving DecidableEq

/-- A source is a token pool too: `pool` is its own. -/
structure SourceConfig where
  sourceId : String
  kind : String
  host : String
  enabled : Option Bool
  pool : TokenPoolConfig
  tokenPools : Option (List (String × TokenPoolConfig))
  authPools : Option (List (String × AuthPoolConfig))
  authPolicy : Option AuthPolicyConfig
  restUrl : Option String
  projects : List ProjectConfig
deriving DecidableEq

/-- The configuration. -/
structure AppConfig where
  sources : List SourceConfig

/-! ## Documents of the type -/

/-- The mode of a policy, read off a document. -/
def policyMode? (j : Json) : Option AuthPolicyMode :=
  match j with
  | .str "inherit" => some .inherit
  | .str "pat" => some .pat
  | .str "bot" => some .bot
  | .str "bot_then_pat" => some .botThenPat
  | _ => none

/-- A strategy, read off a document. -/
def strategy? (j : Json) : Option AuthTokenStrategy :=
  match j with
  | .str "failover" => some .failover
  | .str "budget_aware" => some .budgetAware
  | .str "round_robin" => some .roundRobin
  | _ => none

/-- Texts, read off a document. -/
def strings? (j : Json) : Option (List String) := j.arr?.bind fun elems => elems.mapM str?

/-- A policy, read off a document. -/
def authPolicy? (j : Json) : Option AuthPolicyConfig := do
  let mode ← requiredField policyMode? (j.field? "mode")
  let patPool ← optionalField str? (j.field? "pat_pool")
  let botPool ← optionalField str? (j.field? "bot_pool")
  return { mode, patPool, botPool }

/-- An App's entry, read off a document. -/
def githubApp? (j : Json) : Option GitHubAppAuthConfig := do
  let name ← optionalField str? (j.field? "name")
  let appIdEnv ← requiredField str? (j.field? "app_id_env")
  let installationIdEnv ← requiredField str? (j.field? "installation_id_env")
  let privateKeyEnv ← optionalField str? (j.field? "private_key_env")
  let privateKeyBase64Env ← optionalField str? (j.field? "private_key_base64_env")
  let privateKeyPathEnv ← optionalField str? (j.field? "private_key_path_env")
  return ⟨name, appIdEnv, installationIdEnv, privateKeyEnv, privateKeyBase64Env,
    privateKeyPathEnv⟩

/-- A pool of the old form, read off a document. -/
def tokenPool? (j : Json) : Option TokenPoolConfig := do
  let tokenEnv ← optionalField str? (j.field? "token_env")
  let fallbackTokenEnvs ← optionalField strings? (j.field? "fallback_token_envs")
  let githubApp ← optionalField githubApp? (j.field? "github_app")
  return { tokenEnv, fallbackTokenEnvs, githubApp }

/-- A named pool, read off a document. -/
def authPool? (j : Json) : Option AuthPoolConfig :=
  match poolKind j with
  | some "pat" => do
    let tokenEnv ← requiredField str? (j.field? "token_env")
    let fallbackTokenEnvs ← optionalField strings? (j.field? "fallback_token_envs")
    return .pat tokenEnv fallbackTokenEnvs
  | some "github_app" => do
    let strategy ← optionalField strategy? (j.field? "strategy")
    let apps ← requiredField arr? (j.field? "apps")
    let apps ← apps.mapM githubApp?
    return .githubApp strategy apps
  | _ => none

/-- A project, read off a document; a text is its path. -/
def project? (j : Json) : Option ProjectConfig :=
  match j with
  | .str path => some { path, tokenPool := none, authPolicy := none }
  | j => do
    let path ← requiredField str? (j.field? "path")
    let tokenPool ← optionalField str? (j.field? "token_pool")
    let authPolicy ← optionalField authPolicy? (j.field? "auth_policy")
    return { path, tokenPool, authPolicy }

/-- A source, read off a document. -/
def source? (j : Json) : Option SourceConfig := do
  let sourceId ← requiredField str? (j.field? "source_id")
  let kind ← requiredField str? (j.field? "kind")
  let host ← requiredField str? (j.field? "host")
  let enabled ← optionalField bool? (j.field? "enabled")
  let pool ← tokenPool? j
  let tokenPools ← optionalField (record? tokenPool?) (j.field? "token_pools")
  let authPools ← optionalField (record? authPool?) (j.field? "auth_pools")
  let authPolicy ← optionalField authPolicy? (j.field? "auth_policy")
  let restUrl ← optionalField str? (j.field? "rest_url")
  let projects ← requiredField arr? (j.field? "projects")
  let projects ← projects.mapM project?
  return ⟨sourceId, kind, host, enabled, pool, tokenPools, authPools, authPolicy, restUrl,
    projects⟩

/-- `raw as AppConfig`, where the document is one. -/
def asAppConfig (raw : Json) : Option AppConfig := do
  let sources ← requiredField arr? (raw.field? "sources")
  let sources ← sources.mapM source?
  return { sources }

/-- A configuration that `configErrors` accepts. -/
structure AcceptedConfig (isValidTimezone : String → Bool) where
  raw : Json
  label : String
  cfg : AppConfig
  typed : asAppConfig raw = some cfg
  accepted : configErrors isValidTimezone raw label = []

/-! ## What acceptance gives -/

variable {isValidTimezone : String → Bool}

theorem requiredField_eq_some_iff {α : Type} {decode : Json → Option α} {j : Option Json} {a : α} :
    requiredField decode j = some a ↔ ∃ v, j = some v ∧ decode v = some a :=
  Option.bind_eq_some_iff

/-- The entry of the document behind a source. -/
theorem AcceptedConfig.exists_raw (c : AcceptedConfig isValidTimezone) {source : SourceConfig}
    (h : source ∈ c.cfg.sources) :
    ∃ j, source? j = some source ∧ sourceErrors c.label j = [] := by
  have htyped := c.typed
  simp only [asAppConfig, Option.bind_eq_bind, Option.bind_eq_some_iff] at htyped
  obtain ⟨sources, hraw, entries, hentries, hcfg⟩ := htyped
  rw [← Option.some.inj hcfg] at h
  obtain ⟨j, hj, hsource⟩ := exists_of_mem_mapM hentries h
  exact ⟨j, hsource, sourceErrors_of_accepted c.accepted hraw hj⟩

theorem source?_sourceId {j : Json} {source : SourceConfig} (h : source? j = some source) :
    (j.field? "source_id").bind str? = some source.sourceId := by
  simp only [source?, Option.bind_eq_bind, Option.bind_eq_some_iff] at h
  obtain ⟨sourceId, hid, _, _, _, _, _, _, _, _, _, _, _, _, _, _, _, _, _, _, _, _, h⟩ := h
  obtain rfl := Option.some.inj h
  exact hid

/-- **A source id of an accepted configuration can stand in a reference.** -/
theorem AcceptedConfig.noBar (c : AcceptedConfig isValidTimezone) {source : SourceConfig}
    (h : source ∈ c.cfg.sources) : '|' ∉ source.sourceId.toList := by
  obtain ⟨j, hsource, herrors⟩ := c.exists_raw h
  exact noBar_of_accepted herrors (source?_sourceId hsource)

theorem optionalField_eq_some_iff {α : Type} {decode : Json → Option α} {j : Option Json} {a : α} :
    optionalField decode j = some (some a) ↔ ∃ v, j = some v ∧ decode v = some a := by
  cases j with
  | none => simp [optionalField]
  | some v => simp [optionalField]

theorem source?_authPolicy {j : Json} {source : SourceConfig} (h : source? j = some source) :
    optionalField authPolicy? (j.field? "auth_policy") = some source.authPolicy := by
  simp only [source?, Option.bind_eq_bind, Option.bind_eq_some_iff] at h
  obtain ⟨_, _, _, _, _, _, _, _, _, _, _, _, _, _, policy, hpolicy, _, _, _, _, _, _, h⟩ := h
  obtain rfl := Option.some.inj h
  exact hpolicy

theorem source?_projects {j : Json} {source : SourceConfig} (h : source? j = some source) :
    ∃ entries, (j.field? "projects").bind arr? = some entries ∧
      entries.mapM project? = some source.projects := by
  simp only [source?, Option.bind_eq_bind, Option.bind_eq_some_iff] at h
  obtain ⟨_, _, _, _, _, _, _, _, _, _, _, _, _, _, _, _, _, _, entries, hentries, _, hall, h⟩ := h
  obtain rfl := Option.some.inj h
  exact ⟨entries, hentries, hall⟩

/-- An inheriting policy says so in the document. -/
theorem authPolicy?_inherit {j : Json} {policy : AuthPolicyConfig}
    (h : authPolicy? j = some policy) (hmode : policy.mode = .inherit) :
    j.field? "mode" = some (.str "inherit") := by
  simp only [authPolicy?, Option.bind_eq_bind, Option.bind_eq_some_iff] at h
  obtain ⟨mode, hm, _, _, _, _, h⟩ := h
  rw [← Option.some.inj h] at hmode
  obtain ⟨v, hv, hdecode⟩ := requiredField_eq_some_iff.mp hm
  subst hmode
  unfold policyMode? at hdecode
  split at hdecode
  · exact hv
  · cases hdecode
  · cases hdecode
  · cases hdecode
  · cases hdecode

/-- What the credential routes rely on: a source's own policy does not
inherit, and a project with a policy names no token pool. -/
structure Routable (source : SourceConfig) : Prop where
  policy : ∀ p, source.authPolicy = some p → p.mode ≠ .inherit
  project : ∀ entry ∈ source.projects, ∀ p, entry.authPolicy = some p → entry.tokenPool = none

theorem project?_path {j : Json} {entry : ProjectConfig} (h : project? j = some entry) :
    (projectPathOf j).bind str? = some entry.path := by
  unfold project? at h
  cases j with
  | str path =>
    rw [← Option.some.inj h]
    rfl
  | _ =>
    simp only [Option.bind_eq_bind, Option.bind_eq_some_iff] at h
    obtain ⟨path, hpath, tokenPool, htoken, authPolicy, hauth, h⟩ := h
    rw [← Option.some.inj h]
    exact hpath

theorem project?_policy {j : Json} {entry : ProjectConfig} {p : AuthPolicyConfig}
    (h : project? j = some entry) (hp : entry.authPolicy = some p) :
    (projectPathOf j).bind str? = some entry.path ∧
      optionalField str? (j.field? "token_pool") = some entry.tokenPool ∧
        ∃ policy, j.field? "auth_policy" = some policy := by
  refine ⟨project?_path h, ?_⟩
  unfold project? at h
  split at h
  · rw [← Option.some.inj h] at hp
    cases hp
  · simp only [Option.bind_eq_bind, Option.bind_eq_some_iff] at h
    obtain ⟨path, -, tokenPool, htoken, authPolicy, hauth, h⟩ := h
    obtain rfl := Option.some.inj h
    simp only at hp
    subst hp
    obtain ⟨policy, hpolicy, -⟩ := optionalField_eq_some_iff.mp hauth
    exact ⟨htoken, policy, hpolicy⟩

/-- **The projects of an accepted configuration have paths.** -/
theorem AcceptedConfig.path_ne (c : AcceptedConfig isValidTimezone) {source : SourceConfig}
    (h : source ∈ c.cfg.sources) {entry : ProjectConfig} (hentry : entry ∈ source.projects) :
    entry.path ≠ "" := by
  obtain ⟨j, hsource, herrors⟩ := c.exists_raw h
  obtain ⟨entries, hentries, hall⟩ := source?_projects hsource
  obtain ⟨ej, hej, hdecode⟩ := exists_of_mem_mapM hall hentry
  unfold sourceErrors at herrors
  split at herrors
  · cases herrors
  · simp only [List.append_eq_nil_iff, hentries] at herrors
    obtain ⟨-, hprojects⟩ := herrors
    split at hprojects
    · cases hprojects
    · have hentryErrors := List.flatMap_eq_nil_iff.mp hprojects ej hej
      unfold projectErrors at hentryErrors
      simp only [project?_path hdecode] at hentryErrors
      split at hentryErrors
      · cases hentryErrors
      · assumption

/-- **The sources of an accepted configuration are routable.** -/
theorem AcceptedConfig.routable (c : AcceptedConfig isValidTimezone) {source : SourceConfig}
    (h : source ∈ c.cfg.sources) : Routable source := by
  obtain ⟨j, hsource, herrors⟩ := c.exists_raw h
  unfold sourceErrors at herrors
  split at herrors
  · cases herrors
  · simp only [List.append_eq_nil_iff] at herrors
    obtain ⟨⟨⟨-, hpolicy⟩, -⟩, hprojects⟩ := herrors
    constructor
    · intro p hp hinherit
      have hauth := source?_authPolicy hsource
      rw [hp] at hauth
      obtain ⟨policy, hfield, hdecode⟩ := optionalField_eq_some_iff.mp hauth
      have hmode := authPolicy?_inherit hdecode hinherit
      rw [hfield] at hpolicy
      simp only [Option.map_some, Option.getD_some, validateAuthPolicy, hmode] at hpolicy
      split at hpolicy
      · cases hpolicy
      · simp [isOneOf, str?, optText, text, errorIf] at hpolicy
    · intro entry hentry p hp
      obtain ⟨entries, hentries, hall⟩ := source?_projects hsource
      obtain ⟨ej, hej, hdecode⟩ := exists_of_mem_mapM hall hentry
      obtain ⟨hpath, htoken, policy, hfield⟩ := project?_policy hdecode hp
      simp only [hentries] at hprojects
      split at hprojects
      · cases hprojects
      · have hentryErrors := List.flatMap_eq_nil_iff.mp hprojects ej hej
        unfold projectErrors at hentryErrors
        simp only [hpath, hfield] at hentryErrors
        split at hentryErrors
        · cases hentryErrors
        · simp only [List.append_eq_nil_iff, errorIf_eq_nil_iff] at hentryErrors
          obtain ⟨-, hnone, -⟩ := hentryErrors
          rw [Option.isSome_eq_false_iff, Option.isNone_iff_eq_none] at hnone
          rw [hnone] at htoken
          exact (Option.some.inj htoken).symm

/-- A source is used unless it says not to. -/
def sourceEnabled (source : SourceConfig) : Bool := source.enabled ≠ some false

/-- The sources a run may take part of. -/
def AppConfig.enabledSources (cfg : AppConfig) : List SourceConfig :=
  cfg.sources.filter sourceEnabled

end SymphonyBoard
