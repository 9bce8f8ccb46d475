import Mathlib.Algebra.GroupWithZero.Nat
import Mathlib.Algebra.BigOperators.Group.List.Basic
import SymphonyBoard.Common.OrdMap
import SymphonyBoard.Shared.Text
/-!
# Actors and configured identities

`src/model/actor.ts` and the identity merge of `src/contract/build.ts`: the
keys one person's records are grouped by, the identities a deployment
declares, and `applyIdentities`, which adds up the accumulators an identity
claims. The merge counts everything once (`applyIdentities_conserves`).

Lower-casing, collation and the email hash are the runtime's, so they are
parameters.
-/

namespace SymphonyBoard

/-- What the runtime does with texts. -/
structure TextRuntime where
  toLowerCase : String → String
  localeCompare : String → String → Ordering
  hashEmail : String → String

variable (rt : TextRuntime)

/-! ## Keys -/

/-- `s.replace(/\s+/g, " ")`; `inRun` says whether the last character was
white space. -/
def collapseSpaces (inRun : Bool) : List Char → List Char
  | [] => []
  | c :: cs =>
    if isTrimmed c then if inRun then collapseSpaces true cs else ' ' :: collapseSpaces true cs
    else c :: collapseSpaces false cs

/-- A name without case and extra white space. -/
def normalizeActorName (name : String) : String :=
  rt.toLowerCase (String.ofList (trimChars (collapseSpaces false name.toList)))

/-- `clean`: a trimmed text, if there is one. -/
def cleanSignal (value : Option String) : Option String := nonEmpty (value.map trim)

/-- The prefix of a key made of a user name. -/
def providerUserPrefix : String := "provider-user:"

/-- The key of an address. -/
def emailActorKey (email : Option String) : Option String :=
  (cleanSignal email).map fun e => "email:" ++ rt.hashEmail (rt.toLowerCase e)

/-- The signals one record exposes. -/
structure ActorSignals where
  sourceId : String
  username : Option String
  email : Option String
  name : Option String

/-- The key of the strongest signal: the user name, the address, or the name. -/
def deriveActorKey (signals : ActorSignals) : Option String :=
  match cleanSignal signals.username with
  | some username =>
    some (providerUserPrefix ++ signals.sourceId ++ ":" ++ rt.toLowerCase username)
  | none =>
    match emailActorKey rt signals.email with
    | some key => some key
    | none => (cleanSignal signals.name).map fun n => "name:" ++ normalizeActorName rt n

/-- The username of a `provider-user:` key: what follows the last colon. -/
def usernameOfKey (key : String) : Option String :=
  (stripPrefix? providerUserPrefix.toList key.toList).map fun _ =>
    String.ofList (key.toList.reverse.takeWhile (· ≠ ':')).reverse

/-! ## Accumulators -/

/-- One actor's counters and the names it was seen under. -/
structure ActorAccumulator where
  key : String
  names : OrdMap String ℕ
  profileUrls : OrdMap String ℕ
  canonicalName : Option String
  username : Option String
  usernameActivities : Option ℕ
  activities : ℕ
  commits : ℕ
  itemsOpened : ℕ
  changeRequestsMerged : ℕ

/-- An actor before its first activity. -/
def actorAccumulator (key : String) : ActorAccumulator :=
  { key, names := OrdMap.empty, profileUrls := OrdMap.empty, canonicalName := none
    username := none, usernameActivities := none
    activities := 0, commits := 0, itemsOpened := 0, changeRequestsMerged := 0 }

/-- One more count of a name. -/
def countOne (counts : OrdMap String ℕ) (name : String) : OrdMap String ℕ :=
  counts.upsert name fun n => n.getD 0 + 1

/-- The accumulators by key. -/
structure ActorMap where
  map : OrdMap String ActorAccumulator
  keyed : ∀ k acc, map.get? k = some acc → acc.key = k

namespace ActorMap

/-- No actors. -/
def empty : ActorMap := ⟨OrdMap.empty, fun k acc h => by cases h⟩

/-- Rebind a key, starting from `init` where there is none; the accumulator
keeps its key. -/
def update (m : ActorMap) (init : ActorAccumulator) (f : ActorAccumulator → ActorAccumulator)
    (hf : ∀ acc, (f acc).key = acc.key) : ActorMap :=
  ⟨m.map.upsert init.key fun old => f (old.getD init), fun k acc h => by
    rw [OrdMap.get?_upsert] at h
    split at h
    · rename_i hk
      rw [← Option.some.inj h, hf, ← hk]
      cases hold : m.map.get? init.key with
      | none => rfl
      | some old => exact m.keyed init.key old hold
    · exact m.keyed k acc h⟩

/-- The actors, in the order they were first seen. -/
def values (m : ActorMap) : List ActorAccumulator := m.map.values

end ActorMap

/-- Get or create the accumulator of a key and count one observation; the
caller adds to the counters. A record without a key is dropped. -/
def recordActor (map : ActorMap) (key name profileUrl : Option String)
    (count : ActorAccumulator → ActorAccumulator) (hcount : ∀ acc, (count acc).key = acc.key) :
    ActorMap :=
  match nonEmpty key with
  | none => map
  | some key =>
    map.update (actorAccumulator key) (fun acc => count { acc with
      names := ((cleanSignal name).map (countOne acc.names)).getD acc.names
      profileUrls := ((nonEmpty profileUrl).map (countOne acc.profileUrls)).getD acc.profileUrls })
      fun _ => hcount _

/-! ## Identities -/

/-- A declared person. -/
structure IdentityConfig where
  name : String
  usernames : List String
  emails : List String
  names : List String
  sourceIds : List String

/-- A compiled identity; no source ids means all. -/
structure IdentityMatcher where
  key : String
  name : String
  usernames : List String
  emailKeys : List String
  names : List String
  sourceIds : List String
deriving DecidableEq

/-- `/[^a-z0-9]+/g` replaced by dashes, a run by one. -/
def slugChars (inRun : Bool) : List Char → List Char
  | [] => []
  | c :: cs =>
    if c.isLower || c.isDigit then c :: slugChars false cs
    else if inRun then slugChars true cs else '-' :: slugChars true cs

/-- The key of an identity, from its name or its place. -/
def identitySlug (name : String) (index : ℕ) : String :=
  let dashed := slugChars false (rt.toLowerCase name).toList
  let slug := ((dashed.dropWhile (· = '-')).reverse.dropWhile (· = '-')).reverse
  "person:" ++ if slug = [] then toString index else String.ofList slug

/-- The `n`-th key tried for an entry. -/
def keyCandidate (base : String) (i : ℕ) : ℕ → String
  | 0 => base
  | n + 1 => base ++ "-" ++ toString i ++ "-" ++ toString n

/-- The first key not used yet, among as many as it can take. -/
def freeKey (used : List String) (base : String) (i : ℕ) : ℕ → ℕ → String
  | 0, n => keyCandidate base i n
  | tries + 1, n =>
    if keyCandidate base i n ∈ used then freeKey used base i tries (n + 1)
    else keyCandidate base i n

/-- What an identity is matched by, spelled as signals are. -/
def toMatcher (key : String) (id : IdentityConfig) : IdentityMatcher :=
  { key, name := id.name
    usernames := (id.usernames.map fun u => rt.toLowerCase (trim u)).filter (· ≠ "")
    emailKeys := id.emails.filterMap fun e => emailActorKey rt (some e)
    names := (id.names.map (normalizeActorName rt)).filter (· ≠ "")
    sourceIds := (id.sourceIds.map trim).filter (· ≠ "") }

/-- The matchers, each with a key of its own; `i` counts the entries. -/
def buildMatchersFrom (used : List String) (i : ℕ) : List IdentityConfig → List IdentityMatcher
  | [] => []
  | id :: ids =>
    let key := freeKey used (identitySlug rt id.name i) i used.length 0
    toMatcher rt key id :: buildMatchersFrom (key :: used) (i + 1) ids

/-- `buildIdentityMatchers` -/
def buildIdentityMatchers (identities : List IdentityConfig) : List IdentityMatcher :=
  buildMatchersFrom rt [] 0 identities

/-- Whether an identity claims an actor on a source. -/
def IdentityMatcher.claims (m : IdentityMatcher) (acc : ActorAccumulator) (sourceId : String) :
    Bool :=
  (m.sourceIds = [] ∨ sourceId ∈ m.sourceIds) &&
    (decide (∃ username ∈ nonEmpty (usernameOfKey acc.key), username ∈ m.usernames) ||
      decide (acc.key ∈ m.emailKeys) ||
      (acc.names.entries.map fun e => normalizeActorName rt e.1).any fun n => decide (n ∈ m.names))

/-- The first identity that claims the actor. -/
def resolveIdentity (acc : ActorAccumulator) (matchers : List IdentityMatcher) (sourceId : String) :
    Option IdentityMatcher :=
  matchers.find? fun m => m.claims rt acc sourceId

/-! ### Matcher keys -/

/-- A key of the form identities have. -/
def IsPersonKey (key : String) : Prop := "person:".toList <+: key.toList

theorem toString_nat_inj {n m : ℕ} (h : toString n = toString m) : n = m := by
  have hdigits : Nat.toDigits 10 n = Nat.toDigits 10 m := by
    rw [← Nat.toList_repr, ← Nat.toList_repr]
    exact congrArg String.toList h
  rw [← Nat.ofDigitChars_toDigits (b := 10) (n := n) (by omega) (by omega), hdigits,
    Nat.ofDigitChars_toDigits (by omega) (by omega)]

/-- The keys tried for an entry are distinct. -/
theorem keyCandidate_inj {base : String} {i n m : ℕ}
    (h : keyCandidate base i n = keyCandidate base i m) : n = m := by
  have hbase : ∀ n, keyCandidate base i (n + 1) ≠ base := by
    intro n hn
    have hlength := congrArg (fun s => s.toList.length) hn
    simp only [keyCandidate, String.toList_append, List.length_append] at hlength
    have hdash : "-".toList.length = 1 := rfl
    omega
  cases n with
  | zero =>
    cases m with
    | zero => rfl
    | succ m => exact absurd h.symm (hbase m)
  | succ n =>
    cases m with
    | zero => exact absurd h (hbase n)
    | succ m => exact congrArg (· + 1) (toString_nat_inj ((String.append_right_inj _).mp h))

/-- The key taken is one of those tried, and a used one only if all of them
are. -/
theorem freeKey_spec (used : List String) (base : String) (i tries n : ℕ) :
    ∃ m, freeKey used base i tries n = keyCandidate base i m ∧
      (keyCandidate base i m ∈ used → ∀ j ≤ tries, keyCandidate base i (n + j) ∈ used) := by
  induction tries generalizing n with
  | zero =>
    refine ⟨n, rfl, fun hused j hj => ?_⟩
    obtain rfl : j = 0 := by omega
    exact hused
  | succ tries ih =>
    rw [freeKey]
    split
    · rename_i hn
      obtain ⟨m, hm, hused⟩ := ih (n + 1)
      refine ⟨m, hm, fun hmem j hj => ?_⟩
      cases j with
      | zero => exact hn
      | succ j =>
        have hj := hused hmem j (by omega)
        rwa [show n + 1 + j = n + (j + 1) by omega] at hj
    · rename_i hn
      exact ⟨n, rfl, fun hmem => absurd hmem hn⟩

/-- As many tries as there are used keys find a free one. -/
theorem freeKey_not_mem (used : List String) (base : String) (i : ℕ) :
    freeKey used base i used.length 0 ∉ used := by
  obtain ⟨m, hm, hused⟩ := freeKey_spec used base i used.length 0
  rw [hm]
  intro hmem
  have hnodup : ((List.range (used.length + 1)).map (keyCandidate base i)).Nodup :=
    List.nodup_range.map fun _ _ h => keyCandidate_inj h
  have hsub : (List.range (used.length + 1)).map (keyCandidate base i) ⊆ used := by
    intro key hkey
    obtain ⟨j, hj, rfl⟩ := List.mem_map.mp hkey
    have hj := hused hmem j (by rw [List.mem_range] at hj; omega)
    rwa [Nat.zero_add] at hj
  have hlength := (List.subperm_of_subset hnodup hsub).length_le
  rw [List.length_map, List.length_range] at hlength
  omega

theorem isPersonKey_freeKey (used : List String) (name : String) (i j tries n : ℕ) :
    IsPersonKey (freeKey used (identitySlug rt name i) j tries n) := by
  obtain ⟨m, hm, -⟩ := freeKey_spec used (identitySlug rt name i) j tries n
  rw [hm]
  have hbase : IsPersonKey (identitySlug rt name i) := by
    unfold IsPersonKey identitySlug
    simp only [String.toList_append]
    exact List.prefix_append _ _
  cases m with
  | zero => exact hbase
  | succ m =>
    unfold IsPersonKey at hbase ⊢
    simp only [keyCandidate, String.toList_append, List.append_assoc]
    exact hbase.trans (List.prefix_append _ _)

/-- The identities' keys are distinct, and of a form of their own. -/
theorem buildIdentityMatchers_keys (identities : List IdentityConfig) :
    ((buildIdentityMatchers rt identities).map (·.key)).Nodup ∧
      ∀ m ∈ buildIdentityMatchers rt identities, IsPersonKey m.key := by
  have aux : ∀ (ids : List IdentityConfig) (used : List String) (i : ℕ),
      ((buildMatchersFrom rt used i ids).map (·.key)).Nodup ∧
        ∀ m ∈ buildMatchersFrom rt used i ids, IsPersonKey m.key ∧ m.key ∉ used := by
    intro ids
    induction ids with
    | nil => simp [buildMatchersFrom]
    | cons id ids ih =>
      intro used i
      obtain ⟨hnodup, hkeys⟩ := ih (freeKey used (identitySlug rt id.name i) i used.length 0 :: used)
        (i + 1)
      rw [buildMatchersFrom]
      refine ⟨List.nodup_cons.mpr ⟨?_, hnodup⟩, List.forall_mem_cons.mpr ⟨⟨?_, ?_⟩, ?_⟩⟩
      · intro hmem
        obtain ⟨m, hm, hkey⟩ := List.mem_map.mp hmem
        exact (hkeys m hm).2 (hkey ▸ List.mem_cons_self)
      · exact isPersonKey_freeKey rt used id.name i i used.length 0
      · exact freeKey_not_mem used _ i
      · intro m hm
        exact ⟨(hkeys m hm).1, fun hused => (hkeys m hm).2 (List.mem_cons_of_mem _ hused)⟩
  exact ⟨(aux identities [] 0).1, fun m hm => ((aux identities [] 0).2 m hm).1⟩

/-- A matcher has the name of its identity. -/
theorem mem_buildIdentityMatchers {identities : List IdentityConfig} {m : IdentityMatcher}
    (h : m ∈ buildIdentityMatchers rt identities) : ∃ id ∈ identities, m.name = id.name := by
  have aux : ∀ (ids : List IdentityConfig) (used : List String) (i : ℕ),
      ∀ m ∈ buildMatchersFrom rt used i ids, ∃ id ∈ ids, m.name = id.name := by
    intro ids
    induction ids with
    | nil => exact fun _ _ m hm => nomatch hm
    | cons id ids ih =>
      intro used i m hm
      rw [buildMatchersFrom] at hm
      rcases List.mem_cons.mp hm with rfl | hm
      · exact ⟨id, List.mem_cons_self, rfl⟩
      · obtain ⟨id', hid', hname⟩ := ih _ _ m hm
        exact ⟨id', List.mem_cons_of_mem _ hid', hname⟩
  exact aux identities [] 0 m h

/-- A record's own key is no identity's. -/
theorem deriveActorKey_not_person {signals : ActorSignals} {key : String}
    (h : deriveActorKey rt signals = some key) : ¬IsPersonKey key := by
  have hne : ∀ (kind : String) (rest : String), ¬"person:".toList <+: kind.toList →
      ¬kind.toList <+: "person:".toList → ¬IsPersonKey (kind ++ rest) := by
    intro kind rest h h' hperson
    unfold IsPersonKey at hperson
    rw [String.toList_append] at hperson
    rcases List.prefix_or_prefix_of_prefix hperson (List.prefix_append kind.toList rest.toList)
      with hp | hp
    · exact h hp
    · exact h' hp
  unfold deriveActorKey at h
  split at h
  · obtain rfl := Option.some.inj h
    rw [String.append_assoc, String.append_assoc]
    exact hne providerUserPrefix _ (by decide) (by decide)
  · split at h
    · rename_i key' hkey
      obtain ⟨e, -, rfl⟩ := Option.map_eq_some_iff.mp hkey
      obtain rfl := Option.some.inj h
      exact hne "email:" _ (by decide) (by decide)
    · obtain ⟨n, -, rfl⟩ := Option.map_eq_some_iff.mp h
      exact hne "name:" _ (by decide) (by decide)

/-! ## The merge -/

/-- The counts of another actor added. -/
def addCounts (target counts : OrdMap String ℕ) : OrdMap String ℕ :=
  counts.entries.foldl (fun t e => t.upsert e.1 fun n => n.getD 0 + e.2) target

/-- The username a merged row links to: that of its busiest accumulator,
the smaller one of two as busy. -/
def betterUsername (acc target : ActorAccumulator) (observed : String) : Bool :=
  match target.usernameActivities with
  | none => true
  | some n =>
    decide (n < acc.activities) ||
      (acc.activities = n &&
        rt.localeCompare observed (target.username.getD "") = Ordering.lt)

/-- A row that an accumulator was added to takes its username, if better. -/
def linkUsername (acc target : ActorAccumulator) : ActorAccumulator :=
  match nonEmpty (usernameOfKey acc.key) with
  | none => target
  | some observed =>
    if betterUsername rt acc target observed then
      { target with username := some observed, usernameActivities := some acc.activities }
    else target

/-- One accumulator added to its row. -/
def mergeInto (acc target : ActorAccumulator) : ActorAccumulator :=
  linkUsername rt acc { target with
    activities := target.activities + acc.activities
    commits := target.commits + acc.commits
    itemsOpened := target.itemsOpened + acc.itemsOpened
    changeRequestsMerged := target.changeRequestsMerged + acc.changeRequestsMerged
    names := addCounts target.names acc.names
    profileUrls := addCounts target.profileUrls acc.profileUrls }

/-- Linking touches the username alone. -/
theorem linkUsername_cases (acc target : ActorAccumulator) :
    ∃ username n, linkUsername rt acc target =
      { target with username, usernameActivities := n } := by
  unfold linkUsername
  split
  · exact ⟨target.username, target.usernameActivities, rfl⟩
  · split
    · exact ⟨_, _, rfl⟩
    · exact ⟨target.username, target.usernameActivities, rfl⟩

theorem mergeInto_key (acc target : ActorAccumulator) :
    (mergeInto rt acc target).key = target.key := by
  unfold mergeInto
  obtain ⟨username, n, h⟩ := linkUsername_cases rt acc { target with
    activities := target.activities + acc.activities
    commits := target.commits + acc.commits
    itemsOpened := target.itemsOpened + acc.itemsOpened
    changeRequestsMerged := target.changeRequestsMerged + acc.changeRequestsMerged
    names := addCounts target.names acc.names
    profileUrls := addCounts target.profileUrls acc.profileUrls }
  rw [h]

/-- The row an accumulator goes to. -/
def rowStart (acc : ActorAccumulator) (id : Option IdentityMatcher) : ActorAccumulator :=
  match id with
  | some id => { actorAccumulator id.key with canonicalName := some id.name }
  | none => actorAccumulator acc.key

/-- `applyIdentities`: one row for every identity, and one for every actor
that none claims. -/
def applyIdentities (actors : ActorMap) (matchers : List IdentityMatcher) (sourceId : String) :
    ActorMap :=
  if matchers = [] then actors
  else
    actors.values.foldl (fun merged acc =>
      merged.update (rowStart acc (resolveIdentity rt acc matchers sourceId)) (mergeInto rt acc)
        (mergeInto_key rt acc)) ActorMap.empty

/-! ## Conservation -/

/-- The additive counters. -/
inductive ActorCounter
  | activities
  | commits
  | itemsOpened
  | changeRequestsMerged
deriving DecidableEq

/-- One of an actor's counters. -/
def ActorCounter.of : ActorCounter → ActorAccumulator → ℕ
  | .activities => (·.activities)
  | .commits => (·.commits)
  | .itemsOpened => (·.itemsOpened)
  | .changeRequestsMerged => (·.changeRequestsMerged)

section Conservation

variable {rt} {actors : ActorMap} {matchers : List IdentityMatcher} {sourceId : String}

/-- What merging adds to a counter. -/
theorem mergeInto_counter (c : ActorCounter) (acc target : ActorAccumulator) :
    c.of (mergeInto rt acc target) = c.of target + c.of acc := by
  unfold mergeInto
  obtain ⟨username, n, h⟩ := linkUsername_cases rt acc { target with
    activities := target.activities + acc.activities
    commits := target.commits + acc.commits
    itemsOpened := target.itemsOpened + acc.itemsOpened
    changeRequestsMerged := target.changeRequestsMerged + acc.changeRequestsMerged
    names := addCounts target.names acc.names
    profileUrls := addCounts target.profileUrls acc.profileUrls }
  rw [h]
  cases c <;> rfl

variable (rt matchers sourceId) in
/-- The key of the row an accumulator is attributed to. -/
def rowKey (acc : ActorAccumulator) : String :=
  (rowStart acc (resolveIdentity rt acc matchers sourceId)).key

/-- A new row has counted nothing. -/
theorem rowStart_counter (c : ActorCounter) (acc : ActorAccumulator) (id : Option IdentityMatcher) :
    c.of (rowStart acc id) = 0 := by
  cases id <;> cases c <;> rfl

variable (rt matchers sourceId) in
/-- A row after the merge: present exactly if some accumulator is
attributed to it, with the sum of their counters. -/
theorem get?_foldl_update (accs : List ActorAccumulator) (merged : ActorMap) (k : String)
    (c : ActorCounter) :
    let result := (accs.foldl (fun merged acc =>
      merged.update (rowStart acc (resolveIdentity rt acc matchers sourceId)) (mergeInto rt acc)
        (mergeInto_key rt acc)) merged).map.get? k
    (result.isSome ↔ (merged.map.get? k).isSome ∨ ∃ acc ∈ accs, rowKey rt matchers sourceId acc = k) ∧
    (result.elim 0 c.of = (merged.map.get? k).elim 0 c.of +
      ((accs.filter fun acc => decide (rowKey rt matchers sourceId acc = k)).map c.of).sum) := by
  induction accs generalizing merged with
  | nil => simp
  | cons acc accs ih =>
    intro result
    obtain ⟨hsome, hsum⟩ := ih (merged.update
      (rowStart acc (resolveIdentity rt acc matchers sourceId)) (mergeInto rt acc)
      (mergeInto_key rt acc))
    have hget : (merged.update (rowStart acc (resolveIdentity rt acc matchers sourceId))
        (mergeInto rt acc) (mergeInto_key rt acc)).map.get? k =
        if rowKey rt matchers sourceId acc = k then some (mergeInto rt acc
          ((merged.map.get? k).getD (rowStart acc (resolveIdentity rt acc matchers sourceId))))
        else merged.map.get? k := by
      rw [ActorMap.update, OrdMap.get?_upsert]
      by_cases hk : rowKey rt matchers sourceId acc = k
      · subst hk
        rfl
      · rw [if_neg hk]
        exact if_neg hk
    have hresult : result = (accs.foldl (fun merged acc =>
        merged.update (rowStart acc (resolveIdentity rt acc matchers sourceId)) (mergeInto rt acc)
          (mergeInto_key rt acc)) (merged.update
      (rowStart acc (resolveIdentity rt acc matchers sourceId)) (mergeInto rt acc)
      (mergeInto_key rt acc))).map.get? k := rfl
    rw [hresult, hsome, hsum, hget]
    by_cases hk : rowKey rt matchers sourceId acc = k
    · rw [if_pos hk, List.filter_cons_of_pos (by simp [hk]), List.map_cons, List.sum_cons,
        Option.elim_some, mergeInto_counter]
      constructor
      · simp [hk]
      · have hstart : c.of ((merged.map.get? k).getD
            (rowStart acc (resolveIdentity rt acc matchers sourceId))) =
            (merged.map.get? k).elim 0 c.of := by
          cases merged.map.get? k with
          | none => exact rowStart_counter c acc _
          | some old => rfl
        omega
    · rw [if_neg hk, List.filter_cons_of_neg (by simp [hk])]
      simp [hk]

/-- In a map keyed by the accumulators' own keys, a key's accumulators are
what it is bound to. -/
theorem ActorMap.filter_key (m : ActorMap) (k : String) :
    (m.values.filter fun acc => decide (acc.key = k)) = (m.map.get? k).toList := by
  refine OrdMap.filter_values m.map (·.key) ?_ k
  rintro ⟨k', acc⟩ hb
  exact m.keyed k' acc (OrdMap.mem_entries_iff.mp hb)

theorem ActorMap.nodup_keys (m : ActorMap) : (m.values.map (·.key)).Nodup := by
  have hkeys : m.values.map (·.key) = m.map.entries.map Prod.fst := by
    rw [ActorMap.values, OrdMap.values, List.map_map]
    refine List.map_congr_left ?_
    rintro ⟨k, acc⟩ hb
    exact m.keyed k acc (OrdMap.mem_entries_iff.mp hb)
  rw [hkeys]
  exact m.map.nodup

variable (rt actors matchers sourceId) in
/-- The rows, by key: there exactly if an accumulator is attributed to the
key, with what these counted. -/
theorem applyIdentities_row (k : String) (c : ActorCounter) :
    let row := (applyIdentities rt actors matchers sourceId).map.get? k
    (row.isSome ↔ ∃ acc ∈ actors.values, rowKey rt matchers sourceId acc = k) ∧
    row.elim 0 c.of =
      ((actors.values.filter fun acc => decide (rowKey rt matchers sourceId acc = k)).map c.of).sum := by
  intro row
  by_cases hm : matchers = []
  · -- nobody is claimed, and every accumulator is its row
    have hrow : row = actors.map.get? k := by simp only [row, applyIdentities, if_pos hm]
    have hkey : ∀ acc, rowKey rt matchers sourceId acc = acc.key := by
      intro acc
      rw [hm]
      rfl
    simp only [hkey]
    have hfilter := actors.filter_key k
    constructor
    · rw [hrow]
      constructor
      · intro hsome
        obtain ⟨acc, hacc⟩ := Option.isSome_iff_exists.mp hsome
        exact ⟨acc, OrdMap.mem_values_iff.mpr ⟨k, hacc⟩, actors.keyed k acc hacc⟩
      · rintro ⟨acc, hacc, hk⟩
        have hmem : acc ∈ actors.values.filter fun acc => decide (acc.key = k) :=
          List.mem_filter.mpr ⟨hacc, decide_eq_true hk⟩
        rw [hfilter, Option.mem_toList] at hmem
        exact Option.isSome_iff_exists.mpr ⟨acc, hmem⟩
    · rw [hfilter, hrow]
      cases actors.map.get? k <;> simp
  · have hrow : row = ((actors.values.foldl (fun merged acc =>
        merged.update (rowStart acc (resolveIdentity rt acc matchers sourceId)) (mergeInto rt acc)
          (mergeInto_key rt acc)) ActorMap.empty).map.get? k) := by
      simp only [row, applyIdentities, if_neg hm]
    obtain ⟨hsome, hsum⟩ := get?_foldl_update rt matchers sourceId actors.values
      ActorMap.empty k c
    rw [hrow]
    refine ⟨hsome.trans ?_, hsum.trans ?_⟩
    · simp [ActorMap.empty]
    · simp [ActorMap.empty]

/-- A list's sum, by key. -/
theorem sum_by_key {α : Type} (key : α → String) (f : α → ℕ) (keys : List String)
    (hkeys : keys.Nodup) (l : List α) (hl : ∀ x ∈ l, key x ∈ keys) :
    (keys.map fun k => ((l.filter fun x => decide (key x = k)).map f).sum).sum = (l.map f).sum := by
  induction l with
  | nil => simp
  | cons x l ih =>
    obtain ⟨hx, hl⟩ := List.forall_mem_cons.mp hl
    rw [List.map_cons, List.sum_cons, ← ih hl]
    -- the head is counted under its key, and under no other
    have hcount : ∀ ks : List String, ks.Nodup →
        (ks.map fun k => (((x :: l).filter fun x => decide (key x = k)).map f).sum).sum =
          (if key x ∈ ks then f x else 0) +
            (ks.map fun k => ((l.filter fun x => decide (key x = k)).map f).sum).sum := by
      intro ks hks
      induction ks with
      | nil => simp
      | cons k ks ihk =>
        obtain ⟨hk, hks⟩ := List.nodup_cons.mp hks
        rw [List.map_cons, List.sum_cons, ihk hks, List.map_cons, List.sum_cons]
        by_cases hxk : key x = k
        · have hnot : key x ∉ ks := by
            rw [hxk]
            exact hk
          rw [List.filter_cons_of_pos (by simp [hxk]), if_neg hnot, List.map_cons, List.sum_cons,
            if_pos (by rw [hxk]; exact List.mem_cons_self)]
          omega
        · have hiff : key x ∈ k :: ks ↔ key x ∈ ks := by simp [hxk]
          rw [List.filter_cons_of_neg (by simp [hxk])]
          simp only [hiff]
          omega
    rw [hcount keys hkeys, if_pos hx]

end Conservation

/-- **The identity merge conserves work.** Every accumulator is attributed
to one row, by its key; a row counts what its accumulators counted, and all
rows together what all accumulators did; and the rows have distinct
keys. -/
theorem applyIdentities_conserves (actors : ActorMap) (identities : List IdentityConfig)
    (sourceId : String) :
    let matchers := buildIdentityMatchers rt identities
    let rows := (applyIdentities rt actors matchers sourceId).values
    (rows.map (·.key)).Nodup ∧
    (∀ acc ∈ actors.values, ∃! row, row ∈ rows ∧ row.key = rowKey rt matchers sourceId acc) ∧
    (∀ row ∈ rows, ∀ c : ActorCounter, c.of row = ((actors.values.filter fun acc =>
      decide (rowKey rt matchers sourceId acc = row.key)).map c.of).sum) ∧
    ∀ c : ActorCounter, (rows.map c.of).sum = (actors.values.map c.of).sum := by
  intro matchers rows
  have hnodup : (rows.map (·.key)).Nodup := ActorMap.nodup_keys _
  have hget : ∀ row ∈ rows,
      (applyIdentities rt actors matchers sourceId).map.get? row.key = some row := by
    intro row hrow
    obtain ⟨k, hk⟩ := OrdMap.mem_values_iff.mp hrow
    rw [ActorMap.keyed _ k row hk]
    exact hk
  have hrows : ∀ row ∈ rows, ∀ c : ActorCounter, c.of row = ((actors.values.filter fun acc =>
      decide (rowKey rt matchers sourceId acc = row.key)).map c.of).sum := by
    intro row hrow c
    have h := (applyIdentities_row rt actors matchers sourceId row.key c).2
    rw [hget row hrow, Option.elim_some] at h
    exact h
  have hattributed : ∀ acc ∈ actors.values, ∃ row ∈ rows, row.key = rowKey rt matchers sourceId acc := by
    intro acc hacc
    have h := (applyIdentities_row rt actors matchers sourceId
      (rowKey rt matchers sourceId acc) .commits).1.mpr ⟨acc, hacc, rfl⟩
    obtain ⟨row, hrow⟩ := Option.isSome_iff_exists.mp h
    exact ⟨row, OrdMap.mem_values_iff.mpr ⟨_, hrow⟩, ActorMap.keyed _ _ row hrow⟩
  refine ⟨hnodup, fun acc hacc => ?_, hrows, fun c => ?_⟩
  · obtain ⟨row, hrow, hkey⟩ := hattributed acc hacc
    refine ⟨row, ⟨hrow, hkey⟩, ?_⟩
    rintro row' ⟨hrow', hkey'⟩
    exact List.inj_on_of_nodup_map hnodup hrow' hrow (hkey'.trans hkey.symm)
  · have hsum : rows.map c.of = (rows.map (·.key)).map fun k => ((actors.values.filter fun acc =>
        decide (rowKey rt matchers sourceId acc = k)).map c.of).sum := by
      rw [List.map_map]
      exact List.map_congr_left fun row hrow => hrows row hrow c
    rw [hsum]
    refine sum_by_key _ c.of _ hnodup _ fun acc hacc => ?_
    obtain ⟨row, hrow, hkey⟩ := hattributed acc hacc
    exact List.mem_map.mpr ⟨row, hrow, hkey⟩

end SymphonyBoard
