import SymphonyBoard.Common.Json
import SymphonyBoard.Common.Percent
import SymphonyBoard.Shared.Text
/-!
# Links to a provider

The repository and profile links of `shared/provider-links.ts`, made from a
configured source. Whatever text a link is made from, it stays on the
source's host: a username is one path segment that needs no escape
(`providerProfileUrl_spec`), and a link an activity came with is rebuilt
from the segments it may have (`providerObservedProfileUrl_spec`).

Reading a URL and lower-casing are the runtime's, so they are parameters.
-/

namespace SymphonyBoard

/-- A configured source, as links are made for it. -/
structure ProviderLinkSource where
  kind : String
  host : String
deriving DecidableEq

/-- The two kinds of provider that links are known for. -/
inductive LinkKind
  | github
  | gitlab
deriving DecidableEq, Repr

/-- What `new URL` reads of a link. -/
structure ParsedUrl where
  protocol : String
  host : String
  pathname : String

/-- What a host may be written with. -/
def isHostChar (c : Char) : Bool := c.isAlphanum || c = '.' || c = '-'

/-- `/^[a-z0-9.-]+(?::\d+)?$/i` -/
def isHostText (value : List Char) : Bool :=
  (value.takeWhile isHostChar).length != 0 &&
    match value.dropWhile isHostChar with
    | [] => true
    | ':' :: port => port.length != 0 && port.all Char.isDigit
    | _ => false

/-- A host with nothing but a port behind it; one with a slash is none. -/
def safeHost (host : String) : Option String :=
  (nonEmpty (some (trim host))).filter fun value => isHostText value.toList

/-- The provider of a source, where it is one of the two. -/
def providerKind (source : ProviderLinkSource) : Option LinkKind :=
  if source.kind = "github" then some .github
  else if source.kind = "gitlab" then some .gitlab
  else none

/-- The segments of a project path: two on GitHub, two or more on GitLab. -/
def projectPathSegments (kind : LinkKind) (projectPath : Option String) : Option (List String) :=
  (cleanSegments projectPath).filter fun segments =>
    match kind with
    | .github => segments.length = 2
    | .gitlab => 2 ≤ segments.length
where
  /-- The segments between the slashes, none of them empty or dots. -/
  cleanSegments (projectPath : Option String) : Option (List String) :=
    (nonEmpty (projectPath.map trim)).bind fun path =>
      let segments := (path.toList.splitOn '/').map String.ofList
      if segments.any fun segment => trim segment = "" || segment = "." || segment = ".." then none
      else some segments

/-- The page of a repository. -/
def repoBase (source : ProviderLinkSource) (projectPath : Option String) : Option String := do
  let kind ← providerKind source
  let host ← safeHost source.host
  let segments ← projectPathSegments kind projectPath
  return "https://" ++ host ++ "/" ++ "/".intercalate (segments.map encodeURIComponent)

/-- What an account's name may be written with. -/
def isSlugChar (c : Char) : Bool := c.isAlphanum || c = '.' || c = '_' || c = '-'

/-- A username that may stand as one segment of a path. -/
def safeUsername (value : Option String) : Option String :=
  (nonEmpty (value.map trim)).filter fun name => name.toList.all isSlugChar

/-- Escapes read, each `%` having to start one. -/
def strictPercentDecode : List UInt8 → Option (List UInt8)
  | [] => some []
  | b :: bs =>
    if b = 37 then
      match bs with
      | h :: l :: rest => do
        let byte ← escapedByte b h l
        let bytes ← strictPercentDecode rest
        return byte :: bytes
      | _ => none
    else (strictPercentDecode bs).map fun bytes => b :: bytes

/-- `decodeURIComponent`; `none` is that it throws. -/
def decodeURIComponent (s : String) : Option String :=
  (strictPercentDecode (utf8Encode s.toList)).bind fun bytes => String.fromUTF8? ⟨bytes.toArray⟩

/-- The segments of a URL's path, decoded. -/
def safePathSegments (pathname : String) : Option (List String) :=
  (((pathname.toList.splitOn '/').map String.ofList).filter (· ≠ "")).mapM decodeURIComponent

/-- `providerRepoUrl` -/
def providerRepoUrl (source : ProviderLinkSource) (projectPath : Option String) : Option String :=
  repoBase source projectPath

/-- The profile page of a username. -/
def providerProfileUrl (source : ProviderLinkSource) (username : Option String) :
    Option String := do
  let _ ← providerKind source
  let host ← safeHost source.host
  let name ← safeUsername username
  return "https://" ++ host ++ "/" ++ encodeURIComponent name

/-- The profile page an activity came with, rebuilt on the source's host; on
GitHub it may be an app's. -/
def providerObservedProfileUrl (toLowerCase : String → String) (parseUrl : String → Option ParsedUrl)
    (source : ProviderLinkSource) (value : Option Json) : Option String := do
  let kind ← providerKind source
  let host ← safeHost source.host
  let text ← nonEmpty (match value with
    | some (.str s) => some (trim s)
    | _ => none)
  let url ← parseUrl text
  if url.protocol ≠ "https:" ∨ toLowerCase url.host ≠ toLowerCase host then none
  else
    let segments ← safePathSegments url.pathname
    match kind, segments with
    | .github, ["apps", slug] => do
      let app ← safeUsername (some slug)
      return "https://" ++ host ++ "/apps/" ++ encodeURIComponent app
    | _, [segment] => do
      let name ← safeUsername (some segment)
      return "https://" ++ host ++ "/" ++ encodeURIComponent name
    | _, _ => none

example : providerRepoUrl ⟨"github", "github.com"⟩ (some "acme/web app") =
    some "https://github.com/acme/web%20app" := by decide +kernel

/-! ## Links stay on the host -/

/-- A link to one page of a host, its last segment a plain username. -/
def IsProfileLink (source : ProviderLinkSource) (page url : String) : Prop :=
  ∃ host name, safeHost source.host = some host ∧ name ≠ "" ∧ (∀ c ∈ name.toList, isSlugChar c) ∧
    url = "https://" ++ host ++ page ++ name

theorem safeUsername_spec {value : Option String} {name : String}
    (h : safeUsername value = some name) : name ≠ "" ∧ ∀ c ∈ name.toList, isSlugChar c := by
  obtain ⟨hname, hslug⟩ := Option.filter_eq_some_iff.mp h
  obtain ⟨-, hne⟩ := Option.filter_eq_some_iff.mp hname
  exact ⟨of_decide_eq_true hne, List.all_eq_true.mp hslug⟩

/-- A username is written as it is. -/
theorem encodeURIComponent_safeUsername {value : Option String} {name : String}
    (h : safeUsername value = some name) : encodeURIComponent name = name := by
  refine encodeURIComponent_eq_self fun c hc => ?_
  have hslug := (safeUsername_spec h).2 c hc
  unfold isSlugChar at hslug
  simp only [Bool.or_eq_true, decide_eq_true_eq] at hslug
  unfold isUnescaped
  rcases hslug with ((halnum | rfl) | rfl) | rfl
  · rw [halnum, Bool.true_or]
  · decide
  · decide
  · decide

/-- **A profile link** is the host's page of the username. -/
theorem providerProfileUrl_spec {source : ProviderLinkSource} {username : Option String}
    {url : String} (h : providerProfileUrl source username = some url) :
    IsProfileLink source "/" url := by
  obtain ⟨kind, -, h⟩ := Option.bind_eq_some_iff.mp h
  obtain ⟨host, hhost, h⟩ := Option.bind_eq_some_iff.mp h
  obtain ⟨name, hname, h⟩ := Option.bind_eq_some_iff.mp h
  obtain ⟨hne, hslug⟩ := safeUsername_spec hname
  refine ⟨host, name, hhost, hne, hslug, ?_⟩
  rw [← Option.some.inj h, encodeURIComponent_safeUsername hname]

/-- **A link that an activity came with** is kept as the host's page of a
username, or of an app. -/
theorem providerObservedProfileUrl_spec {toLowerCase : String → String}
    {parseUrl : String → Option ParsedUrl} {source : ProviderLinkSource} {value : Option Json}
    {url : String} (h : providerObservedProfileUrl toLowerCase parseUrl source value = some url) :
    IsProfileLink source "/" url ∨ IsProfileLink source "/apps/" url := by
  obtain ⟨kind, -, h⟩ := Option.bind_eq_some_iff.mp h
  obtain ⟨host, hhost, h⟩ := Option.bind_eq_some_iff.mp h
  obtain ⟨text, -, h⟩ := Option.bind_eq_some_iff.mp h
  obtain ⟨parsed, -, h⟩ := Option.bind_eq_some_iff.mp h
  split at h
  · cases h
  · obtain ⟨segments, -, h⟩ := Option.bind_eq_some_iff.mp h
    split at h
    · obtain ⟨app, happ, h⟩ := Option.bind_eq_some_iff.mp h
      obtain ⟨hne, hslug⟩ := safeUsername_spec happ
      refine Or.inr ⟨host, app, hhost, hne, hslug, ?_⟩
      rw [← Option.some.inj h, encodeURIComponent_safeUsername happ]
    · obtain ⟨name, hname, h⟩ := Option.bind_eq_some_iff.mp h
      obtain ⟨hne, hslug⟩ := safeUsername_spec hname
      refine Or.inl ⟨host, name, hhost, hne, hslug, ?_⟩
      rw [← Option.some.inj h, encodeURIComponent_safeUsername hname]
    · cases h

end SymphonyBoard
