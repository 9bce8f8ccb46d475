import SymphonyBoard.Common.Compare
import SymphonyBoard.Common.MapRel
import SymphonyBoard.Contract.Actors
import SymphonyBoard.Model.Types
/-!
# The actor directory

`buildActorDirectory` of `src/contract/build.ts`: who stands behind each
raw actor string of the feed. The activities are grouped by stored actor
key, the groups a configured identity claims are one, rows without a stored
key join the one group that shows their string, and a string several groups
show is nobody's. Every string is then at most one identity's
(`buildActorDirectory_disjoint`).

A `Set` is the list of its members in insertion order. The groups stand in
a map by their key, where the source numbers them.
-/

namespace SymphonyBoard

variable (rt : TextRuntime)

/-! ## Names -/

/-- Names by their lower-case forms, then as they are. -/
def compareName : String → String → Ordering :=
  compareLex (on rt.localeCompare rt.toLowerCase) rt.localeCompare

/-- The most frequent name first. -/
def compareObserved : String × ℕ → String × ℕ → Ordering :=
  compareLex (fun a b => compare b.2 a.2) (on (compareName rt) Prod.fst)

/-- The names an actor was seen under, the most frequent first. -/
def observedNames (acc : ActorAccumulator) : List String :=
  (sortBy (compareObserved rt) acc.names.entries).map Prod.fst

/-- The display name, and the other names. -/
def chooseDisplayName (acc : ActorAccumulator) : String × List String :=
  match nonEmpty acc.canonicalName, observedNames rt acc with
  | some canonicalName, observed =>
    (canonicalName, sortBy (compareName rt) (observed.filter (· ≠ canonicalName)))
  | none, [] => (acc.key, [])
  | none, name :: aliases => (name, sortBy (compareName rt) aliases)

/-- `/^(project|group)_\d+_bot_/` -/
def isAccessTokenUser (username : List Char) : Bool :=
  ["project_", "group_"].any fun kind =>
    match stripPrefix? kind.toList username with
    | none => false
    | some rest => rest.head?.any Char.isDigit &&
        (stripPrefix? "_bot_".toList (rest.dropWhile Char.isDigit)).isSome

/-- A user name that says it is a bot's. -/
def isAutoBot (key : String) : Bool :=
  match nonEmpty (usernameOfKey key) with
  | none => false
  | some username =>
    (stripPrefix? "[bot]".toList.reverse username.toList.reverse).isSome ||
      isAccessTokenUser username.toList

/-- Whether one of the configured patterns matches the username or a name;
a pattern is the test it makes. -/
def isExcludedActor (acc : ActorAccumulator) (excludes : List (String → Bool)) : Bool :=
  ((nonEmpty (usernameOfKey acc.key)).toList ++
      (acc.names.entries.map Prod.fst).filter (· ≠ "")).any fun candidate =>
    excludes.any fun re => re (rt.toLowerCase candidate)

/-! ## Reading the activities -/

/-- A key some record's signals gave. -/
structure StoredActorKey where
  key : String
  derived : ∃ signals, deriveActorKey rt signals = some key

/-- What the directory reads of an activity. -/
structure ActorActivity where
  sourceId : SourceId
  externalId : String
  actor : Option String

/-- One activity that names an actor: the key it goes under, and whether
that is a stored one. -/
structure Sighting where
  key : String
  actor : String
  sourceId : SourceId
  stored : Bool

variable {rt} in
/-- A row without a stored key goes under the one its name gives. -/
def sighting (actorKeys : OrdMap Ref (Option (StoredActorKey rt))) (a : ActorActivity) :
    Option Sighting :=
  match cleanSignal a.actor with
  | none => none
  | some actor =>
    match (actorKeys.get? (refOf a.sourceId a.externalId)).join with
    | some stored => some ⟨stored.key, actor, a.sourceId, true⟩
    | none =>
      (deriveActorKey rt ⟨a.sourceId.val, none, none, some actor⟩).map fun key =>
        ⟨key, actor, a.sourceId, false⟩

/-- `Set.add` -/
def setAdd {α : Type} [DecidableEq α] (set : List α) (x : α) : List α :=
  if x ∈ set then set else set ++ [x]

/-- What the scan over the activities has seen. -/
structure DirectoryScan where
  accs : ActorMap
  sourceIds : OrdMap String (List SourceId)
  storedKeys : List String
  derivedKeys : List String

namespace DirectoryScan

/-- Nothing seen. -/
def empty : DirectoryScan := ⟨ActorMap.empty, OrdMap.empty, [], []⟩

/-- An actor seen once more. -/
def see (scan : DirectoryScan) (s : Sighting) : DirectoryScan :=
  if s.key = "" then scan
  else
    { accs := recordActor scan.accs (some s.key) (some s.actor) none (fun acc => acc) fun _ => rfl
      sourceIds := scan.sourceIds.upsert s.key fun seen => setAdd (seen.getD []) s.sourceId
      storedKeys := if s.stored then setAdd scan.storedKeys s.key else scan.storedKeys
      derivedKeys := if s.stored then scan.derivedKeys else setAdd scan.derivedKeys s.key }

variable {rt} in
/-- The scan over the activities. -/
def ofActivities (activities : List ActorActivity)
    (actorKeys : OrdMap Ref (Option (StoredActorKey rt))) : DirectoryScan :=
  (activities.filterMap (sighting actorKeys)).foldl see empty

/-- The source ids a key was seen on, in the order they came. -/
def sources (scan : DirectoryScan) (key : String) : List SourceId :=
  (scan.sourceIds.get? key).getD []

/-- The identity that claims an actor: on the first of its sources where one
does. -/
def claim (scan : DirectoryScan) (matchers : List IdentityMatcher) (acc : ActorAccumulator) :
    Option IdentityMatcher :=
  (scan.sources acc.key).findSome? fun sourceId => resolveIdentity rt acc matchers sourceId.val

end DirectoryScan

/-! ## Groups -/

/-- The actors that belong together, with the identity that claims them. -/
structure MergedActor where
  acc : ActorAccumulator
  bot : Bool
  claimKey : Option String

/-- An actor added to its group: a group is a bot only when all of it is. -/
def mergeActor (claim : Option IdentityMatcher) (bot : Bool) (acc : ActorAccumulator)
    (entry : Option MergedActor) : MergedActor :=
  let entry : MergedActor := match entry with
    | none => ⟨rowStart acc claim, bot, claim.map (·.key)⟩
    | some entry => { entry with bot := entry.bot && bot }
  { entry with acc := { entry.acc with names := addCounts entry.acc.names acc.names } }

/-- One actor put into its group: that of the identity that claims it, or
its own. -/
def mergeStep (scan : DirectoryScan) (matchers : List IdentityMatcher)
    (excludes : List (String → Bool)) (merged : OrdMap String MergedActor)
    (b : String × ActorAccumulator) : OrdMap String MergedActor :=
  let claim := scan.claim rt matchers b.2
  let bot := isAutoBot b.1 || isExcludedActor rt b.2 excludes
  merged.upsert (rowStart b.2 claim).key (mergeActor claim bot b.2)

/-- The actors by the identity or the key they go under. -/
def mergeActors (scan : DirectoryScan) (matchers : List IdentityMatcher)
    (excludes : List (String → Bool)) : OrdMap String MergedActor :=
  scan.accs.map.entries.foldl (mergeStep rt scan matchers excludes) OrdMap.empty

/-- A group with its name and its strings. -/
structure DirectoryEntry where
  name : String
  actors : List String
  bot : Bool
  declared : Bool
  keyless : Bool
deriving DecidableEq

/-- The entry of a group. -/
def directoryEntry (scan : DirectoryScan) (key : String) (m : MergedActor) : DirectoryEntry :=
  let display := chooseDisplayName rt m.acc
  { name := display.1
    actors := display.1 :: display.2
    bot := m.bot
    declared := m.claimKey.isSome
    keyless := m.claimKey = none ∧ key ∈ scan.derivedKeys ∧ key ∉ scan.storedKeys }

/-- The entries of all groups. -/
def directoryEntries (scan : DirectoryScan) (matchers : List IdentityMatcher)
    (excludes : List (String → Bool)) : OrdMap String DirectoryEntry :=
  (mergeActors rt scan matchers excludes).mapBindings (directoryEntry rt scan)

/-! ## Folding the rows without a key -/

/-- The only member, of a list with one. -/
def onlyOne {α : Type} : List α → Option α
  | [x] => some x
  | _ => none

/-- The group a keyless entry joins: the only one with evidence of its own
that shows one of its strings. -/
def foldTarget (entries : OrdMap String DirectoryEntry) (entry : DirectoryEntry) : Option String :=
  onlyOne (entries.keysWhere fun owner =>
    !owner.keyless && owner.actors.any fun actor => decide (actor ∈ entry.actors))

/-- An entry's strings taken over by another. -/
def absorb (target entry : DirectoryEntry) : DirectoryEntry :=
  { target with
    actors := entry.actors.foldl setAdd target.actors
    bot := target.bot || entry.bot }

/-- The keyless entries that join a group, in order. -/
def foldedInto (entries : OrdMap String DirectoryEntry) (key : String) : List DirectoryEntry :=
  entries.values.filter fun entry => entry.keyless && foldTarget entries entry = some key

/-- The entries without a key of their own, folded into the ones that have their name. -/
def foldKeyless (entries : OrdMap String DirectoryEntry) : OrdMap String DirectoryEntry :=
  (entries.filter fun entry => !(entry.keyless && (foldTarget entries entry).isSome)).mapBindings
    fun key entry => (foldedInto entries key).foldl absorb entry

/-! ## Contested strings -/

/-- The entries a string is shown by. -/
def holders (entries : OrdMap String DirectoryEntry) (actor : String) : List String :=
  entries.keysWhere fun entry => decide (actor ∈ entry.actors)

/-- The holder that keeps a contested string: the only declared identity of
that name. -/
def keeper (entries : OrdMap String DirectoryEntry) (actor : String) : Option String :=
  onlyOne (entries.keysWhere fun entry =>
    decide (actor ∈ entry.actors) && (entry.declared && entry.name = actor))

/-- Each string left to one of the entries that show it. -/
def settle (entries : OrdMap String DirectoryEntry) : OrdMap String DirectoryEntry :=
  entries.mapBindings fun key entry => { entry with
    actors := entry.actors.filter fun actor =>
      (holders entries actor).length < 2 || keeper entries actor = some key }

/-! ## The directory -/

/-- What is published of an actor. -/
structure ActorIdentity where
  name : String
  actors : List String
  bot : Bool
deriving DecidableEq

/-- The published form of an entry. -/
def publishEntry (entry : DirectoryEntry) : ActorIdentity :=
  let actors := sortBy (compareName rt) entry.actors
  { name := if entry.name ∈ entry.actors then entry.name else actors.headD entry.name
    actors
    bot := entry.bot }

/-- The entries that still have strings, by name. -/
def publishDirectory (entries : OrdMap String DirectoryEntry) : List ActorIdentity :=
  sortBy (on (compareName rt) ActorIdentity.name)
    ((entries.values.filter fun entry => entry.actors ≠ []).map (publishEntry rt))

variable {rt} in
/-- `buildActorDirectory`: who the actors of the activities are. -/
def buildActorDirectory (activities : List ActorActivity)
    (actorKeys : OrdMap Ref (Option (StoredActorKey rt))) (matchers : List IdentityMatcher)
    (excludes : List (String → Bool)) : List ActorIdentity :=
  publishDirectory rt (settle (foldKeyless (directoryEntries rt
    (DirectoryScan.ofActivities activities actorKeys) matchers excludes)))

/-! ## One identity for a string -/

theorem onlyOne_eq_some {α : Type} {l : List α} {x : α} : onlyOne l = some x ↔ l = [x] := by
  unfold onlyOne
  split <;> simp_all

/-- Two groups never hold one string once the contested ones are settled:
a string with two holders is left to its keeper at most. -/
theorem settle_disjoint {entries : OrdMap String DirectoryEntry} {k k' : String}
    {e e' : DirectoryEntry} (he : (settle entries).get? k = some e)
    (he' : (settle entries).get? k' = some e') (hne : k ≠ k') : e.actors.Disjoint e'.actors := by
  rw [settle, OrdMap.get?_mapBindings] at he he'
  obtain ⟨entry, hentry, rfl⟩ := Option.map_eq_some_iff.mp he
  obtain ⟨entry', hentry', rfl⟩ := Option.map_eq_some_iff.mp he'
  intro actor hactor hactor'
  obtain ⟨hmem, hkept⟩ := List.mem_filter.mp hactor
  obtain ⟨hmem', hkept'⟩ := List.mem_filter.mp hactor'
  have hk : k ∈ holders entries actor :=
    OrdMap.mem_keysWhere.mpr ⟨entry, hentry, decide_eq_true hmem⟩
  have hk' : k' ∈ holders entries actor :=
    OrdMap.mem_keysWhere.mpr ⟨entry', hentry', decide_eq_true hmem'⟩
  have htwo : ¬(holders entries actor).length < 2 := by
    intro hlt
    match hholders : holders entries actor with
    | [] =>
      rw [hholders] at hk
      cases hk
    | [x] =>
      rw [hholders, List.mem_singleton] at hk hk'
      exact hne (hk.trans hk'.symm)
    | _ :: _ :: _ =>
      rw [hholders, List.length_cons, List.length_cons] at hlt
      omega
  have hkeeper : keeper entries actor = some k := by simpa [htwo] using hkept
  have hkeeper' : keeper entries actor = some k' := by simpa [htwo] using hkept'
  exact hne (Option.some.inj (hkeeper.symm.trans hkeeper'))

theorem mem_publishEntry_actors {entry : DirectoryEntry} {actor : String} :
    actor ∈ (publishEntry rt entry).actors ↔ actor ∈ entry.actors := mem_sortBy

/-- The published name is one of the published strings. -/
theorem publishEntry_name_mem {entry : DirectoryEntry} (h : entry.actors ≠ []) :
    (publishEntry rt entry).name ∈ (publishEntry rt entry).actors := by
  rw [mem_publishEntry_actors]
  unfold publishEntry
  simp only
  split
  · assumption
  · cases hsort : sortBy (compareName rt) entry.actors with
    | nil =>
      have hlength := length_sortBy (compareName rt) entry.actors
      rw [hsort, List.length_nil] at hlength
      exact absurd (List.length_eq_zero_iff.mp hlength.symm) h
    | cons actor actors =>
      have hmem : actor ∈ sortBy (compareName rt) entry.actors := by
        rw [hsort]
        exact List.mem_cons_self
      exact mem_sortBy.mp hmem

theorem mem_publish {entries : OrdMap String DirectoryEntry} {d : ActorIdentity} :
    d ∈ publishDirectory rt entries ↔
      ∃ k entry, entries.get? k = some entry ∧ entry.actors ≠ [] ∧ publishEntry rt entry = d := by
  rw [publishDirectory, mem_sortBy, List.mem_map]
  constructor
  · rintro ⟨entry, hentry, rfl⟩
    obtain ⟨hentry, hactors⟩ := List.mem_filter.mp hentry
    obtain ⟨k, hk⟩ := OrdMap.mem_values_iff.mp hentry
    exact ⟨k, entry, hk, of_decide_eq_true hactors, rfl⟩
  · rintro ⟨k, entry, hk, hactors, rfl⟩
    exact ⟨entry, List.mem_filter.mpr
      ⟨OrdMap.mem_values_iff.mpr ⟨k, hk⟩, decide_eq_true hactors⟩, rfl⟩

/-- Groups that share no strings are published as identities that share
none. -/
theorem publish_disjoint {entries : OrdMap String DirectoryEntry}
    (h : ∀ k k' e e', entries.get? k = some e → entries.get? k' = some e' → k ≠ k' →
      e.actors.Disjoint e'.actors) :
    (publishDirectory rt entries).Pairwise fun d d' => d.actors.Disjoint d'.actors := by
  have hkeys : entries.entries.Pairwise fun b b' => b.1 ≠ b'.1 :=
    List.pairwise_map.mp entries.nodup
  have hentries : entries.values.Pairwise fun e e' => e.actors.Disjoint e'.actors := by
    refine List.pairwise_map.mpr (hkeys.imp_of_mem fun hb hb' hne => ?_)
    exact h _ _ _ _ (OrdMap.mem_entries_iff.mp hb) (OrdMap.mem_entries_iff.mp hb') hne
  have hpublished : ((entries.values.filter fun entry => entry.actors ≠ []).map
      (publishEntry rt)).Pairwise fun d d' => d.actors.Disjoint d'.actors := by
    refine List.pairwise_map.mpr ((hentries.sublist List.filter_sublist).imp fun hdisj => ?_)
    intro actor hactor hactor'
    exact hdisj ((mem_publishEntry_actors rt).mp hactor) ((mem_publishEntry_actors rt).mp hactor')
  exact (sortBy_perm _ _).symm.pairwise hpublished fun hdisj =>
    List.disjoint_comm.mp hdisj

variable {rt} in
/-- **A raw string is at most one identity's.** -/
theorem buildActorDirectory_disjoint (activities : List ActorActivity)
    (actorKeys : OrdMap Ref (Option (StoredActorKey rt))) (matchers : List IdentityMatcher)
    (excludes : List (String → Bool)) :
    (buildActorDirectory activities actorKeys matchers excludes).Pairwise fun d d' =>
      d.actors.Disjoint d'.actors :=
  publish_disjoint rt fun _ _ _ _ => settle_disjoint

variable {rt} in
/-- An identity is named by one of its own strings. -/
theorem buildActorDirectory_name_mem {activities : List ActorActivity}
    {actorKeys : OrdMap Ref (Option (StoredActorKey rt))} {matchers : List IdentityMatcher}
    {excludes : List (String → Bool)} {d : ActorIdentity}
    (h : d ∈ buildActorDirectory activities actorKeys matchers excludes) : d.name ∈ d.actors := by
  obtain ⟨k, entry, -, hactors, rfl⟩ := (mem_publish rt).mp h
  exact publishEntry_name_mem rt hactors

end SymphonyBoard
