import SymphonyBoard.Common.Json
import SymphonyBoard.Shared.Text
/-!
# Configuration errors

`configErrors` of `src/config.ts`: every problem of a parsed config
document, in the order the source pushes them. An error list is built by
concatenation, one part for each check. Whether a timezone name is one is
the engine's to say, so it is a parameter.
-/

namespace SymphonyBoard

open Json

/-- The text has something besides white space. -/
def notBlank (s : String) : Bool := trimChars s.toList ≠ []

/-- `typeof x === "string" && x.trim().length > 0`. -/
def isNonBlankString (j : Option Json) : Bool := (j.bind str?).any notBlank

/-- A message, if there is something wrong. -/
def errorIf (c : Bool) (message : String) : List String := if c then [message] else []

/-- `#rgb` or `#rrggbb`. -/
def hexColor (s : String) : Bool :=
  match s.toList with
  | '#' :: cs => (cs.length = 3 || cs.length = 6) && cs.all isHexDigit
  | _ => false

/-- A text in quotes. -/
def quoted (s : String) : String := "\"" ++ s ++ "\""

/-! ## Credentials -/

/-- The three places a private key may be in; one is needed. -/
def keyFields : List String := ["private_key_env", "private_key_base64_env", "private_key_path_env"]

/-- The errors of an App's entry. -/
def validateGithubAppAuth (app : Json) (label : String) : List String :=
  if !app.isPlainObject then [label ++ " github_app must be an object"]
  else
    errorIf ((app.field? "name").isSome && !isNonBlankString (app.field? "name"))
        (label ++ " github_app name must be a non-empty string when set") ++
      ["app_id_env", "installation_id_env"].flatMap (fun field =>
        errorIf (!isNonBlankString (app.field? field))
          (label ++ " github_app missing " ++ quoted field)) ++
      errorIf ((keyFields.filter fun field => isNonBlankString (app.field? field)).length ≠ 1)
        (label ++ " github_app must set exactly one of private_key_env, " ++
          "private_key_base64_env, private_key_path_env")

/-- The fallback envs, against the names seen so far. -/
def fallbackErrors (poolLabel : String) (seen : List String) : List Json → List String
  | [] => []
  | envName :: envNames =>
    if !isNonBlankString (some envName) then
      (poolLabel ++ " fallback_token_envs entries must be non-empty strings") ::
        fallbackErrors poolLabel seen envNames
    else
      let trimmed := String.ofList (trimChars envName.text.toList)
      if trimmed ∈ seen then
        (poolLabel ++ " fallback_token_envs must not repeat token_env or another " ++
            "fallback token env") ::
          fallbackErrors poolLabel seen envNames
      else fallbackErrors poolLabel (trimmed :: seen) envNames

/-- The errors of a token pool. -/
def validateTokenPool (pool : Json) (poolLabel : String) : List String :=
  if !pool.isPlainObject then [poolLabel ++ " must be an object"]
  else
    let tokenEnv := String.ofList (trimChars (((pool.field? "token_env").bind str?).getD "").toList)
    let hasTokenEnv := isNonBlankString (pool.field? "token_env")
    let githubApp := pool.field? "github_app"
    errorIf (!hasTokenEnv && githubApp.isNone)
        (poolLabel ++ " missing \"token_env\" or \"github_app\"") ++
      errorIf ((pool.field? "token_env").isSome && !hasTokenEnv)
        (poolLabel ++ " token_env must be a non-empty string when set") ++
      (githubApp.map fun app => validateGithubAppAuth app poolLabel).getD [] ++
      match pool.field? "fallback_token_envs" with
      | none => []
      | some fallbacks =>
        errorIf (!hasTokenEnv) (poolLabel ++ " fallback_token_envs requires token_env") ++
          match fallbacks.arr? with
          | none => [poolLabel ++ " fallback_token_envs must be an array when set"]
          | some envNames => fallbackErrors poolLabel (if hasTokenEnv then [tokenEnv] else []) envNames

/-- The errors of a pool of personal tokens. -/
def validatePatAuthPool (pool : Json) (poolLabel : String) : List String :=
  errorIf ((pool.field? "github_app").isSome || (pool.field? "apps").isSome)
      (poolLabel ++ " kind \"pat\" must not set github_app or apps") ++
    validateTokenPool pool poolLabel

/-- A field that is one of some names. -/
def isOneOf (j : Option Json) (names : List String) : Bool := (j.bind str?).any fun s => s ∈ names

/-- The errors of a pool of Apps. -/
def validateGitHubAppAuthPool (pool : Json) (poolLabel : String) : List String :=
  errorIf ((pool.field? "token_env").isSome || (pool.field? "fallback_token_envs").isSome ||
        (pool.field? "github_app").isSome)
      (poolLabel ++ " kind \"github_app\" must use apps, not " ++
        "token_env/fallback_token_envs/github_app") ++
    errorIf ((pool.field? "strategy").isSome &&
        !isOneOf (pool.field? "strategy") ["budget_aware", "round_robin", "failover"])
      (poolLabel ++ " strategy must be \"budget_aware\", \"round_robin\" (legacy alias), " ++
        "or \"failover\" when set") ++
    match (pool.field? "apps").bind arr? with
    | none => [poolLabel ++ " apps must be a non-empty array"]
    | some apps =>
      if apps.isEmpty then [poolLabel ++ " apps must be a non-empty array"]
      else (apps.zipIdx.flatMap fun a =>
        validateGithubAppAuth a.1 (poolLabel ++ ".apps[" ++ toString a.2 ++ "]"))

/-- The kind a pool says it is of. -/
def poolKind (pool : Json) : Option String := (pool.field? "kind").bind str?

/-- One entry of `auth_pools`. -/
def authPoolErrors (sourceLabel poolName : String) (pool : Json) : List String :=
  if !notBlank poolName then [sourceLabel ++ " auth_pools contains an empty pool name"]
  else
    let poolLabel := sourceLabel ++ " auth_pools." ++ poolName
    if !pool.isPlainObject then [poolLabel ++ " must be an object"]
    else
      match poolKind pool with
      | some "pat" => validatePatAuthPool pool poolLabel
      | some "github_app" => validateGitHubAppAuthPool pool poolLabel
      | _ => [poolLabel ++ " kind must be \"pat\" or \"github_app\""]

/-- The errors of `auth_pools`, and the pools that are objects, by name. -/
def validateAuthPools (pools : Json) (sourceLabel : String) :
    List String × Option (List (String × Json)) :=
  match pools with
  | .obj fields =>
    (fields.flatMap fun f => authPoolErrors sourceLabel f.1 f.2,
      some (fields.filter fun f => notBlank f.1 && f.2.isPlainObject))
  | _ => ([sourceLabel ++ " auth_pools must be an object when set"], none)

/-- The kind of the pool of a name. -/
def authPoolKind (authPools : Option (List (String × Json))) (name : String) : Option String :=
  (authPools.bind fun pools => pools.lookup name).bind poolKind

/-- The pool a policy names has to be one of its kind. -/
def poolReferenceErrors (policy : Json) (policyLabel mode field kind described : String)
    (authPools : Option (List (String × Json))) : List String :=
  match (policy.field? field).bind str? with
  | none => [policyLabel ++ " mode " ++ quoted mode ++ " requires " ++ field]
  | some name =>
    if !notBlank name then [policyLabel ++ " mode " ++ quoted mode ++ " requires " ++ field]
    else
      errorIf (authPoolKind authPools name ≠ some kind)
        (policyLabel ++ " references unknown " ++ described ++ " auth pool " ++ quoted name)

/-- The errors of a policy, whose pools have to be of the right kinds. -/
def validateAuthPolicy (policy : Json) (policyLabel : String)
    (authPools : Option (List (String × Json))) (allowInherit : Bool) (sourceKind : String) :
    List String :=
  if !policy.isPlainObject then [policyLabel ++ " must be an object"]
  else
    let mode := policy.field? "mode"
    if !isOneOf mode ["inherit", "pat", "bot", "bot_then_pat"] then
      [policyLabel ++ " mode must be \"inherit\", \"pat\", \"bot\", or \"bot_then_pat\""]
    else
      let mode := optText mode
      if mode = "inherit" then
        errorIf (!allowInherit) (policyLabel ++ " mode \"inherit\" is only valid on projects")
      else
        (if mode = "pat" ∨ mode = "bot_then_pat" then
            poolReferenceErrors policy policyLabel mode "pat_pool" "pat" "PAT" authPools
          else []) ++
          if mode = "bot" ∨ mode = "bot_then_pat" then
            errorIf (sourceKind ≠ "github")
                (policyLabel ++ " mode " ++ quoted mode ++
                  " with bot_pool is only supported for GitHub sources") ++
              poolReferenceErrors policy policyLabel mode "bot_pool" "github_app" "GitHub App"
                authPools
          else []

/-! ## Sources -/

/-- The kind as the policy checks take it: `String(s.kind ?? "")`. -/
def sourceKindText (source : Json) : String :=
  match source.field? "kind" with
  | none => ""
  | some .null => ""
  | some kind => kind.text

/-- A source of GitHub. -/
def isGithub (source : Json) : Bool := (source.field? "kind").bind str? = some "github"

/-- The `token_pool` of a project entry. -/
def tokenPoolReferenceErrors (source : Json) (label projPath : String) (pool : Json) :
    List String :=
  if !isNonBlankString (some pool) then
    [label ++ ": project " ++ quoted projPath ++ " token_pool must be a non-empty string when set"]
  else if !isGithub source then
    [label ++ ": project " ++ quoted projPath ++
      " token_pool is only supported for GitHub sources"]
  else
    errorIf (((source.field? "token_pools").bind fun pools => pools.field? pool.text).isNone)
      (label ++ ": project " ++ quoted projPath ++ " references unknown token_pool " ++
        quoted pool.text)

/-- A project entry's path: the entry itself, or the object's `path`. -/
def projectPathOf (entry : Json) : Option Json :=
  match entry with
  | .str path => some (.str path)
  | entry => entry.field? "path"

/-- The errors of a project entry. -/
def projectErrors (source : Json) (label : String) (authPools : Option (List (String × Json)))
    (entry : Json) : List String :=
  match (projectPathOf entry).bind str? with
  | none => [label ++ ": source " ++ quoted (optText (source.field? "source_id")) ++
      " has a project entry with no \"path\""]
  | some projPath =>
    if projPath = "" then
      [label ++ ": source " ++ quoted (optText (source.field? "source_id")) ++
        " has a project entry with no \"path\""]
    else
      -- a bare path has no further properties
      ((entry.field? "color").map fun color => errorIf (!hexColor color.text)
          (label ++ ": project " ++ quoted projPath ++ " color " ++ quoted color.text ++
            " is not a hex color (#rgb or #rrggbb)")).getD [] ++
        ((entry.field? "token_pool").map
          (tokenPoolReferenceErrors source label projPath)).getD [] ++
        match entry.field? "auth_policy" with
        | none => []
        | some policy =>
          errorIf (entry.field? "token_pool").isSome
              (label ++ ": project " ++ quoted projPath ++
                " must not set both token_pool and auth_policy") ++
            validateAuthPolicy policy (label ++ ": project " ++ quoted projPath ++ " auth_policy")
              authPools true (sourceKindText source)

/-- The errors of a source's old pools. -/
def tokenPoolsErrors (source : Json) (label : String) (pools : Json) : List String :=
  let prefixed := label ++ ": source " ++ quoted (optText (source.field? "source_id"))
  errorIf (!isGithub source) (prefixed ++ " token_pools are only supported for GitHub sources") ++
    match pools with
    | .obj fields =>
      fields.flatMap fun f =>
        if !notBlank f.1 then [prefixed ++ " token_pools contains an empty pool name"]
        else validateTokenPool f.2 (prefixed ++ " token_pools." ++ f.1)
    | _ => [prefixed ++ " token_pools must be an object when set"]

/-- The checks of a source's own fields, up to its auth settings. -/
def sourceFieldErrors (source : Json) (label : String) : List String :=
  let prefixed := label ++ ": source " ++ quoted (optText (source.field? "source_id"))
  ["source_id", "kind", "host", "graphql_url"].flatMap (fun field =>
      errorIf (!truthy (source.field? field)) (label ++ ": source missing " ++ quoted field)) ++
    errorIf (((source.field? "source_id").bind str?).any fun s => '|' ∈ s.toList)
      (label ++ ": source_id " ++ quoted (optText (source.field? "source_id")) ++
        " must not contain '|'") ++
    errorIf ((source.field? "enabled").any fun enabled => enabled.bool?.isNone)
      (prefixed ++ " enabled must be a boolean when set") ++
    errorIf ((source.field? "color").any fun color => !hexColor color.text)
      (prefixed ++ " color " ++ quoted (optText (source.field? "color")) ++
        " is not a hex color (#rgb or #rrggbb)") ++
    errorIf ((source.field? "rest_url").any fun url => url.str?.isNone)
      (prefixed ++ " rest_url must be a string when set") ++
    errorIf ((source.field? "commit_branches").isSome &&
        !isOneOf (source.field? "commit_branches") ["all", "default"])
      (prefixed ++ " commit_branches must be \"all\" or \"default\" when set") ++
    errorIf ((source.field? "commit_files_per_sweep").any fun n => match n with
        | .num mantissa _ => !n.isInteger || mantissa < 0
        | _ => true)
      (prefixed ++ " commit_files_per_sweep must be a non-negative integer when set") ++
    errorIf ((source.field? "github_app").isSome && !isGithub source)
      (prefixed ++ " github_app is only supported for GitHub sources")

/-- `authPools` of a source: what `validateAuthPools` keeps. -/
def sourceAuthPools (source : Json) (sourceLabel : String) : Option (List (String × Json)) :=
  (source.field? "auth_pools").bind fun pools => (validateAuthPools pools sourceLabel).2

/-- The errors of a source. -/
def sourceErrors (label : String) (source : Json) : List String :=
  if !source.isObject then [label ++ ": every source must be an object"]
  else
    let sourceLabel := match (source.field? "source_id").bind str? with
      | some sourceId => label ++ ": source " ++ quoted sourceId
      | none => label ++ ": source"
    let hasLegacySourceAuth := (source.field? "token_env").isSome ||
      (source.field? "fallback_token_envs").isSome || (source.field? "github_app").isSome
    let authPools := sourceAuthPools source sourceLabel
    sourceFieldErrors source label ++
      ((source.field? "auth_pools").map fun pools =>
        (validateAuthPools pools sourceLabel).1).getD [] ++
      (authPools.getD []).flatMap (fun f =>
        errorIf (poolKind f.2 = some "github_app" && !isGithub source)
          (sourceLabel ++ " auth_pools." ++ f.1 ++
            " kind \"github_app\" is only supported for GitHub sources")) ++
      (if hasLegacySourceAuth || (source.field? "auth_policy").isNone then
        validateTokenPool source sourceLabel else []) ++
      ((source.field? "auth_policy").map fun policy =>
        validateAuthPolicy policy (sourceLabel ++ " auth_policy") authPools false
          (sourceKindText source)).getD [] ++
      ((source.field? "token_pools").map (tokenPoolsErrors source label)).getD [] ++
      match (source.field? "projects").bind arr? with
      | none => [label ++ ": source " ++ quoted (optText (source.field? "source_id")) ++
          " has no projects"]
      | some projects =>
        if projects.isEmpty then
          [label ++ ": source " ++ quoted (optText (source.field? "source_id")) ++
            " has no projects"]
        else projects.flatMap (projectErrors source label authPools)

/-! ## The document -/

/-- An array of strings. -/
def isStringArray (j : Json) : Bool :=
  match j with
  | .arr elems => elems.all fun e => e.str?.isSome
  | _ => false

/-- The errors of an identity. -/
def identityErrors (label : String) (id : Json) : List String :=
  if !id.isObject || !isNonBlankString (id.field? "name") then
    [label ++ ": every identity needs a non-empty \"name\""]
  else
    ["usernames", "emails", "names", "source_ids"].flatMap fun field =>
      errorIf ((id.field? field).any fun v => !isStringArray v)
        (label ++ ": identity " ++ quoted (optText (id.field? "name")) ++ " " ++ field ++
          " must be an array of strings when set")

/-- An integer from 1 on. -/
def validatePositiveInteger (value : Json) (label : String) : List String :=
  match value with
  | .num mantissa scale =>
    errorIf (!value.isInteger || mantissa < 10 ^ scale) (label ++ " must be a positive integer")
  | _ => [label ++ " must be a positive integer"]

/-- The errors of the sync intervals. -/
def syncErrors (label : String) (sync : Json) : List String :=
  if !sync.isPlainObject then [label ++ ": \"sync\" must be an object when set"]
  else
    ["interval_seconds", "full_interval_seconds"].flatMap fun field =>
      ((sync.field? field).map fun value =>
        validatePositiveInteger value (label ++ ": sync." ++ field)).getD []

/-- The errors of the time zone. -/
def timezoneErrors (isValidTimezone : String → Bool) (label : String) (timezone : Json) :
    List String :=
  if !isNonBlankString (some timezone) then
    [label ++ ": \"timezone\" must be a non-empty string when set (omit it for UTC)"]
  else
    errorIf (!isValidTimezone timezone.text)
      (label ++ ": \"timezone\" " ++ quoted timezone.text ++
        " is not a valid IANA timezone (e.g. \"UTC\", \"Asia/Taipei\")")

/-- The errors of a configuration, in the order they are reported. -/
def configErrors (isValidTimezone : String → Bool) (raw : Json) (label : String) : List String :=
  if !raw.isPlainObject then [label ++ " is not an object"]
  else
    errorIf (!truthy (raw.field? "db_path")) (label ++ " is missing db_path") ++
      errorIf ((raw.field? "db_url_env").isSome && !isNonBlankString (raw.field? "db_url_env"))
        (label ++ ": \"db_url_env\" must be a non-empty env-var name when set " ++
          "(omit it for SQLite)") ++
      ((raw.field? "sync").map (syncErrors label)).getD [] ++
      (match (raw.field? "sources").bind arr? with
        | none => [label ++ " has no sources"]
        | some sources =>
          if sources.isEmpty then [label ++ " has no sources"]
          else sources.flatMap (sourceErrors label)) ++
      (match raw.field? "identities" with
        | none => []
        | some (.arr identities) => identities.flatMap (identityErrors label)
        | some _ => [label ++ ": \"identities\" must be an array when set"]) ++
      errorIf ((raw.field? "exclude_actors").any fun v => !isStringArray v)
        (label ++ ": \"exclude_actors\" must be an array of strings when set") ++
      ((raw.field? "timezone").map (timezoneErrors isValidTimezone label)).getD []

/-! ## What an accepted document has -/

variable {isValidTimezone : String → Bool} {raw source : Json} {label : String}

theorem errorIf_eq_nil_iff {c : Bool} {message : String} : errorIf c message = [] ↔ c = false := by
  unfold errorIf
  cases c <;> simp

/-- Every source entry of an accepted document passes its own checks. -/
theorem sourceErrors_of_accepted (h : configErrors isValidTimezone raw label = [])
    {sources : List Json} (hsources : (raw.field? "sources").bind arr? = some sources)
    (hmem : source ∈ sources) : sourceErrors label source = [] := by
  unfold configErrors at h
  split at h
  · cases h
  · simp only [hsources, List.append_eq_nil_iff] at h
    obtain ⟨⟨⟨⟨-, hall⟩, -⟩, -⟩, -⟩ := h
    split at hall
    · cases hall
    · exact List.flatMap_eq_nil_iff.mp hall source hmem

/-- A source id of an accepted document holds no bar. -/
theorem noBar_of_accepted (h : sourceErrors label source = []) {sourceId : String}
    (hid : (source.field? "source_id").bind str? = some sourceId) : '|' ∉ sourceId.toList := by
  unfold sourceErrors at h
  split at h
  · cases h
  · simp only [List.append_eq_nil_iff, sourceFieldErrors, errorIf_eq_nil_iff] at h
    obtain ⟨⟨⟨⟨⟨⟨⟨⟨⟨⟨⟨⟨⟨-, hbar⟩, -⟩, -⟩, -⟩, -⟩, -⟩, -⟩, -⟩, -⟩, -⟩, -⟩, -⟩, -⟩ := h
    simpa [hid] using hbar

end SymphonyBoard
