import SymphonyBoard.Auth.Resolver
import SymphonyBoard.Common.SingleFlight
import SymphonyBoard.Sources.CommitFiles
/-!
# The files of one commit, on demand

`GET /api/commit-files` of `src/server/commit-files.ts`: the request is
read and checked against the config as it is now, and only then meets the
cache and the flights of `Common/SingleFlight`. What a provider call comes
to is an input of the step that ends it: the tokens, or why there are none
to be had, and the files the provider reader returns.

`commitFilesRoute_safe` is what holds after every step, in whatever order
requests come in and provider calls end.
-/

namespace SymphonyBoard

/-! ## Requests and answers -/

/-- `CACHE_LIMIT` -/
def cacheLimit : ℕ := 200

/-- `FAILURE_CACHE_MS` -/
def failureCacheMs : ℤ := 60000

/-- The codes of the route's errors. -/
inductive CommitFilesErrorCode
  | badRequest
  | unknownSource
  | unknownProject
  | noToken
  | unsupportedProvider
  | providerError
  | configError
deriving DecidableEq, Repr

/-- An error of the route. -/
structure CommitFilesError where
  error : CommitFilesErrorCode
  message : String
deriving DecidableEq

/-- What `total` covers: the commit, or the files listed. -/
inductive TotalScope
  | commit
  | listed
deriving DecidableEq, Repr

/-- What the provider readers make of a commit. -/
structure ResolvedCommitFiles where
  files : List CanonicalCommitFile
  additions : ℕ
  deletions : ℕ
  totalScope : TotalScope
  truncated : Bool
deriving DecidableEq

/-- The files of a commit, as the route sends them. -/
structure CommitFilesResult where
  sourceId : String
  projectPath : String
  sha : String
  resolved : ResolvedCommitFiles
deriving DecidableEq

/-- What the route answers. -/
inductive CommitFilesAnswer
  | result (r : CommitFilesResult)
  | error (e : CommitFilesError)
deriving DecidableEq

/-- The commit that is asked for. -/
structure CommitFilesRequest where
  sourceId : String
  projectPath : String
  sha : String
deriving DecidableEq

/-- The query parameters of a request. -/
structure CommitFilesParams where
  sourceId : Option String
  projectPath : Option String
  sha : Option String

/-- One segment of a project path as both providers spell it. -/
def isSegmentStart (c : Char) : Bool := c.isAlphanum || c = '_' || c = '.'

/-- A segment of a path: no dots alone, and only plain characters. -/
def plainSegment (segment : List Char) : Bool :=
  segment ≠ ['.'] && segment ≠ ['.', '.'] && segment.length ≤ 255 &&
    match segment with
    | [] => false
    | c :: rest => isSegmentStart c && rest.all fun c => isSegmentStart c || c = '-'

/-- A path of plain segments, two at least. -/
def isPlainProjectPath (projectPath : String) : Bool :=
  let segments := projectPath.toList.splitOn '/'
  2 ≤ segments.length && segments.all plainSegment

/-- `parseCommitFilesRequest`: the fields of a request, trimmed and checked. -/
def parseCommitFilesRequest (params : CommitFilesParams) :
    Except CommitFilesError CommitFilesRequest :=
  let sourceId := trim (params.sourceId.getD "")
  let projectPath := trim (params.projectPath.getD "")
  let sha := trim (params.sha.getD "")
  if sourceId = "" then .error ⟨.badRequest, "source_id is required"⟩
  else if projectPath = "" then .error ⟨.badRequest, "project_path is required"⟩
  else if !isPlainProjectPath projectPath then
    .error ⟨.badRequest, "project_path must be a plain group/project path"⟩
  else if !fullCommitSha sha then
    .error ⟨.badRequest, "sha must be a full hex commit id (40 or 64 chars)"⟩
  else .ok ⟨sourceId, projectPath, sha⟩

/-- `toLowerCase` of a plain hex id. -/
def lowerSha (sha : String) : String := String.ofList (sha.toList.map Char.toLower)

/-- The key answers are cached under. -/
def cacheKey (req : CommitFilesRequest) : String :=
  req.sourceId ++ "\u0000" ++ req.projectPath ++ "\u0000" ++ lowerSha req.sha

/-- The configured paths of a source. -/
def projectPaths (source : SourceConfig) : List String := source.projects.map (·.path)

/-- A request the config answers for, with why it does. -/
structure CommitFilesJob where
  cfg : AppConfig
  source : SourceConfig
  req : CommitFilesRequest
  configured : cfg.sources.find? (fun s => s.sourceId = req.sourceId) = some source
  enabled : sourceEnabled source = true
  listed : req.projectPath ∈ projectPaths source
  supported : source.kind = "github" ∨ source.kind = "gitlab"

/-- The checks of `fetchCommitFiles` before it looks anything up. -/
def authorizeCommitFiles (cfg : AppConfig) (req : CommitFilesRequest) :
    Except CommitFilesError CommitFilesJob :=
  match configured : cfg.sources.find? (fun s => s.sourceId = req.sourceId) with
  | none => .error ⟨.unknownSource, "no configured source " ++ quoted req.sourceId⟩
  | some source =>
    if enabled : sourceEnabled source then
      if listed : req.projectPath ∈ projectPaths source then
        if supported : source.kind = "github" ∨ source.kind = "gitlab" then
          .ok { cfg, source, req, configured, enabled, listed, supported }
        else
          .error ⟨.unsupportedProvider,
            "source kind " ++ quoted source.kind ++ " has no per-file diffstat"⟩
      else
        .error ⟨.unknownProject, "project " ++ quoted req.projectPath ++
          " is not configured for source " ++ quoted req.sourceId⟩
    else .error ⟨.unknownSource, "source " ++ quoted req.sourceId ++ " is disabled"⟩

/-- A request as it comes in: the config loaded for it, or why it could not
be, and its parameters. -/
structure CommitFilesAsk where
  config : Except String AppConfig
  params : CommitFilesParams

/-- What a request is refused with, or the job it is. -/
def CommitFilesAsk.accept (ask : CommitFilesAsk) : Except CommitFilesAnswer CommitFilesJob :=
  match ask.config with
  | .error message => .error (.error ⟨.configError, message⟩)
  | .ok cfg =>
    match parseCommitFilesRequest ask.params with
    | .error e => .error (.error e)
    | .ok req =>
      match authorizeCommitFiles cfg req with
      | .error e => .error (.error e)
      | .ok job => .ok job

/-! ## The provider call -/

/-- `resolveCommitFiles`. What the token lookup throws, the call throws. -/
def resolveCommitFiles (job : CommitFilesJob) (tokens : Except String (List AuthToken))
    (read : Except String (Option ResolvedCommitFiles)) : Except String CommitFilesAnswer :=
  match tokens with
  | .error message => .error message
  | .ok [] =>
    .ok (.error ⟨.noToken, "no token is set for source " ++ quoted job.req.sourceId⟩)
  | .ok (_ :: _) =>
    match read with
    | .error message => .ok (.error ⟨.providerError, message⟩)
    | .ok none =>
      .ok (.error ⟨.badRequest, "project_path " ++ quoted job.req.projectPath ++
        " is not a valid " ++ job.source.kind ++ " project path"⟩)
    | .ok (some resolved) =>
      .ok (.result ⟨job.req.sourceId, job.req.projectPath, job.req.sha, resolved⟩)

/-- `cacheable`, with how long: a result for good, a provider failure for a
minute, a refusal not at all. -/
def keepAnswer : CommitFilesAnswer → Option (Option ℤ)
  | .result _ => some none
  | .error e => if e.error = .providerError then some (some failureCacheMs) else none

/-! ## The route -/

/-- The cache, and the reads in flight. -/
abbrev RouteState :=
  SingleFlight.State CommitFilesAsk String CommitFilesJob String CommitFilesAnswer

/-- A request, the end of a provider call, and the `finally` after it. -/
inductive RouteEvent
  | request (ask : CommitFilesAsk) (now : ℤ)
  | complete (f : ℕ) (tokens : Except String (List AuthToken))
      (read : Except String (Option ResolvedCommitFiles)) (now : ℤ)
  | release (f : ℕ)

/-- What comes of an event for the cache and the reads. -/
def flightStep (s : RouteState)
    (e : SingleFlight.Event CommitFilesAsk String CommitFilesAnswer) : RouteState :=
  SingleFlight.step CommitFilesAsk.accept (fun job => cacheKey job.req) keepAnswer cacheLimit s e

/-- One event of the route. -/
def routeStep (s : RouteState) : RouteEvent → RouteState
  | .request ask now => flightStep s (.ask ask now)
  | .complete f tokens read now =>
    match s.flights[f]? with
    | none => s
    | some flight => flightStep s (.settle f (resolveCommitFiles flight.job tokens read) now)
  | .release f => flightStep s (.land f)

/-- The config of a request has its source, enabled, and its project. -/
def CommitFilesAsk.Configured (ask : CommitFilesAsk) : Prop :=
  ∃ cfg req source, ask.config = .ok cfg ∧ parseCommitFilesRequest ask.params = .ok req ∧
    cfg.sources.find? (fun s => s.sourceId = req.sourceId) = some source ∧
    sourceEnabled source = true ∧ req.projectPath ∈ projectPaths source

/-- The same commit, however its sha is written. -/
def SameCommit (req req' : CommitFilesRequest) : Prop :=
  req.sourceId = req'.sourceId ∧ req.projectPath = req'.projectPath ∧
    lowerSha req.sha = lowerSha req'.sha

/-- What holds after every step. -/
structure RouteSafe (s : RouteState) : Prop where
  /-- At most one provider call for a commit is out. -/
  oneCall : ∀ (f g : ℕ) (flight flight' : SingleFlight.Flight CommitFilesJob String
      CommitFilesAnswer), s.flights[f]? = some flight → s.flights[g]? = some flight' →
    flight.settled = none → flight'.settled = none → SameCommit flight.job.req flight'.job.req →
    f = g
  /-- What is not configured is refused, with no look at the cache. -/
  refused : ∀ r ∈ s.replies, ∀ ask, s.callers[r.caller]? = some ask → ¬ask.Configured →
    ∃ e, r.outcome = .ok (.error e) ∧ ask.accept = .error (.error e)
  /-- A failure out of the cache is a provider's, less than a minute old. -/
  freshFailure : ∀ r ∈ s.replies, ∀ entry now, r.origin = .cached entry now →
    ∀ e, entry.value = .error e → e.error = .providerError ∧
      ∃ t, entry.expiresAt = some (t + failureCacheMs) ∧ now < t + failureCacheMs ∧
        ∃ flight ∈ s.flights, flight.settled = some (t, .ok (.error e))
  bounded : s.cache.entries.length ≤ cacheLimit
  /-- The waiters of a landed flight have one answer, and it is theirs. -/
  shared : ∀ (f : ℕ) (flight : SingleFlight.Flight CommitFilesJob String CommitFilesAnswer),
    s.flights[f]? = some flight → flight.landed = true → ∃ outcome,
      (∀ w ∈ flight.waiters, ⟨w, outcome, .flight f⟩ ∈ s.replies) ∧
      ∀ r ∈ s.replies, r.caller ∈ flight.waiters → r.outcome = outcome
  /-- Every request is answered once, or waits once. -/
  counted : (s.replies.map (·.caller) ++ s.waiting).Perm (List.range s.callers.length)

/-! ## What the checks say -/

theorem authorizeCommitFiles_req {cfg : AppConfig} {req : CommitFilesRequest}
    {job : CommitFilesJob} (h : authorizeCommitFiles cfg req = .ok job) :
    job.cfg = cfg ∧ job.req = req := by
  unfold authorizeCommitFiles at h
  split at h
  · cases h
  · split at h
    · split at h
      · split at h
        · cases h
          exact ⟨rfl, rfl⟩
        · cases h
      · cases h
    · cases h

/-- A refusal is an error row. -/
theorem CommitFilesAsk.admit_error {ask : CommitFilesAsk} {value : CommitFilesAnswer}
    (h : ask.accept = .error value) : ∃ e, value = .error e := by
  unfold CommitFilesAsk.accept at h
  split at h
  · exact ⟨_, (Except.error.inj h).symm⟩
  · split at h
    · exact ⟨_, (Except.error.inj h).symm⟩
    · split at h
      · exact ⟨_, (Except.error.inj h).symm⟩
      · cases h

/-- What is admitted is configured. -/
theorem CommitFilesAsk.configured_of_admit {ask : CommitFilesAsk} {job : CommitFilesJob}
    (h : ask.accept = .ok job) : ask.Configured := by
  unfold CommitFilesAsk.accept at h
  split at h
  · cases h
  · rename_i cfg hcfg
    split at h
    · cases h
    · rename_i req hreq
      split at h
      · cases h
      · rename_i job' hjob
        obtain rfl := Except.ok.inj h
        obtain ⟨hcfg', hreq'⟩ := authorizeCommitFiles_req hjob
        refine ⟨cfg, req, job'.source, hcfg, hreq, ?_, job'.enabled, ?_⟩
        · rw [← hcfg', ← hreq']
          exact job'.configured
        · rw [← hreq']
          exact job'.listed

/-- Only a provider failure is cached as an error, for a minute. -/
theorem keepAnswer_error {e : CommitFilesError} {lifetime : Option ℤ}
    (h : keepAnswer (.error e) = some lifetime) :
    e.error = .providerError ∧ lifetime = some failureCacheMs := by
  rw [keepAnswer] at h
  split at h
  · rename_i hcode
    exact ⟨hcode, (Option.some.inj h).symm⟩
  · cases h

theorem cacheKey_eq_of_sameCommit {req req' : CommitFilesRequest} (h : SameCommit req req') :
    cacheKey req = cacheKey req' := by
  rw [cacheKey, cacheKey, h.1, h.2.1, h.2.2]

/-! ## The run -/

/-- The invariant of the cache and the reads. -/
abbrev RouteInv (s : RouteState) : Prop :=
  SingleFlight.Inv CommitFilesAsk.accept (fun job => cacheKey job.req) keepAnswer cacheLimit s

theorem routeInv_step (s : RouteState) (e : RouteEvent) (h : RouteInv s) :
    RouteInv (routeStep s e) := by
  cases e with
  | request ask now => exact SingleFlight.inv_step s (.ask ask now) h
  | complete f tokens read now =>
    rw [routeStep]
    split
    · exact h
    · exact SingleFlight.inv_step s _ h
  | release f => exact SingleFlight.inv_step s (.land f) h

theorem RouteInv.safe {s : RouteState} (h : RouteInv s) : RouteSafe s where
  oneCall := fun f g flight flight' hf hg hopen hopen' hsame => by
    have hout : flight.landed = false := by
      by_contra hl
      exact h.landed f flight hf (Bool.of_not_eq_false hl) hopen
    have hout' : flight'.landed = false := by
      by_contra hl
      exact h.landed g flight' hg (Bool.of_not_eq_false hl) hopen'
    exact h.unique hf hg (cacheKey_eq_of_sameCommit hsame) hout hout'
  refused := fun r hr ask hask hnot => by
    obtain ⟨q, hq, hwhy⟩ := h.replies r hr
    obtain rfl := Option.some.inj (hask.symm.trans hq)
    -- only a refusal answers a question that was not admitted
    match horigin : r.origin, hwhy with
    | .refused, ⟨value, hadmit, hout⟩ =>
      obtain ⟨e, rfl⟩ := CommitFilesAsk.admit_error hadmit
      exact ⟨e, hout, hadmit⟩
    | .cached entry now, ⟨_, _, job, hadmit, _⟩ =>
      exact absurd (CommitFilesAsk.configured_of_admit hadmit) hnot
    | .flight f, ⟨_, _, job, _, _, _, hadmit, _⟩ =>
      exact absurd (CommitFilesAsk.configured_of_admit hadmit) hnot
  freshFailure := fun r hr entry now horigin e hentry => by
    obtain ⟨q, -, hwhy⟩ := h.replies r hr
    rw [horigin] at hwhy
    obtain ⟨hfresh, -, job, -, f, flight, t, lifetime, hf, -, hsettled, hkeep, hexpires⟩ := hwhy
    rw [hentry] at hkeep hsettled
    obtain ⟨hcode, rfl⟩ := keepAnswer_error hkeep
    refine ⟨hcode, t, hexpires, ?_, flight, List.mem_of_getElem? hf, hsettled⟩
    rw [SingleFlight.CacheEntry.fresh, hexpires] at hfresh
    exact of_decide_eq_true hfresh
  bounded := h.bounded
  shared := fun f flight hf hl => by
    obtain ⟨⟨t, outcome⟩, hsettled⟩ := Option.ne_none_iff_exists'.mp (h.landed f flight hf hl)
    have hreplies : ∀ w ∈ flight.waiters, ⟨w, outcome, .flight f⟩ ∈ s.replies := by
      intro w hw
      obtain ⟨t', outcome', hsettled', hmem⟩ := h.answered f flight hf hl w hw
      obtain rfl : outcome = outcome' :=
        congrArg Prod.snd (Option.some.inj (hsettled.symm.trans hsettled'))
      exact hmem
    refine ⟨outcome, hreplies, fun r hr hw => ?_⟩
    have hnodup : (s.replies.map (·.caller)).Nodup := h.answered_once.sublist
      (List.sublist_append_left _ _)
    have hsame := List.inj_on_of_nodup_map hnodup hr (hreplies _ hw) rfl
    rw [hsame]
  counted := h.counted

/-- **The route is safe in every run**: one provider call for a commit at a
time, no answer to what is not configured, no stale failure, a bounded
cache, and one answer for all who wait for one flight. -/
theorem commitFilesRoute_safe (events : List RouteEvent) :
    Always routeStep RouteSafe .initial events := by
  refine always_iff_initial.mpr fun before after _ => RouteInv.safe ?_
  exact (always_of_step routeInv_step before SingleFlight.inv_initial).last

end SymphonyBoard
