import SymphonyBoard.Contract.ActorDirectory
/-!
# The directory and the order of the activities

The activities in another order give the same groups, counted in another
order. Every stage of `buildActorDirectory` respects that, with one
exception: an actor seen on several sources goes to the identity that
claims it on the one seen first, so identities scoped to sources may take
it in turns. Where the order leaves every claim as it is, it leaves the
directory as it is.
-/

namespace SymphonyBoard

variable {rt : TextRuntime}

/-! ## Actors alike -/

/-- One actor, its names counted in two orders. -/
structure SameActor (acc acc' : ActorAccumulator) : Prop where
  key : acc.key = acc'.key
  canonicalName : acc.canonicalName = acc'.canonicalName
  names : ∀ n, acc.names.get? n = acc'.names.get? n

namespace SameActor

theorem refl (acc : ActorAccumulator) : SameActor acc acc := ⟨rfl, rfl, fun _ => rfl⟩

theorem symm {acc acc' : ActorAccumulator} (h : SameActor acc acc') : SameActor acc' acc :=
  ⟨h.key.symm, h.canonicalName.symm, fun n => (h.names n).symm⟩

theorem trans {acc acc' acc'' : ActorAccumulator} (h : SameActor acc acc')
    (h' : SameActor acc' acc'') : SameActor acc acc'' :=
  ⟨h.key.trans h'.key, h.canonicalName.trans h'.canonicalName,
    fun n => (h.names n).trans (h'.names n)⟩

variable {acc acc' : ActorAccumulator}

theorem entries_perm (h : SameActor acc acc') : acc.names.entries.Perm acc'.names.entries := by
  refine (List.perm_ext_iff_of_nodup (List.Nodup.of_map Prod.fst acc.names.nodup)
    (List.Nodup.of_map Prod.fst acc'.names.nodup)).mpr ?_
  rintro ⟨n, c⟩
  rw [OrdMap.mem_entries_iff, OrdMap.mem_entries_iff, h.names n]

theorem resolveIdentity_eq (h : SameActor acc acc') (matchers : List IdentityMatcher)
    (sourceId : String) :
    resolveIdentity rt acc matchers sourceId = resolveIdentity rt acc' matchers sourceId := by
  have hclaims : ∀ m : IdentityMatcher, m.claims rt acc sourceId = m.claims rt acc' sourceId := by
    intro m
    unfold IdentityMatcher.claims
    rw [h.key, (h.entries_perm.map fun e => normalizeActorName rt e.1).any_eq]
  simp only [resolveIdentity, hclaims]

theorem isExcludedActor_eq (h : SameActor acc acc') (excludes : List (String → Bool)) :
    isExcludedActor rt acc excludes = isExcludedActor rt acc' excludes := by
  unfold isExcludedActor
  rw [h.key]
  exact (((h.entries_perm.map Prod.fst).filter _).append_left _).any_eq

theorem rowStart_eq (h : SameActor acc acc') (claim : Option IdentityMatcher) :
    rowStart acc claim = rowStart acc' claim := by
  cases claim with
  | none => rw [rowStart, rowStart, h.key]
  | some m => rfl

end SameActor

/-! ## The scan -/

/-- What one sighting adds to its actor. -/
def observe (s : Sighting) (acc : ActorAccumulator) : ActorAccumulator :=
  { acc with names := ((cleanSignal (some s.actor)).map (countOne acc.names)).getD acc.names }

theorem get?_observe (s : Sighting) (acc : ActorAccumulator) (n : String) :
    (observe s acc).names.get? n = if cleanSignal (some s.actor) = some n then
      some ((acc.names.get? n).getD 0 + 1) else acc.names.get? n := by
  unfold observe
  cases cleanSignal (some s.actor) with
  | none => simp
  | some name =>
    simp only [Option.map_some, Option.getD_some, countOne, OrdMap.get?_upsert, Option.some.injEq]
    by_cases hn : name = n
    · subst hn
      rfl
    · rw [if_neg hn, if_neg hn]

theorem SameActor.observe {acc acc' : ActorAccumulator} (h : SameActor acc acc') (s : Sighting) :
    SameActor (observe s acc) (SymphonyBoard.observe s acc') := by
  refine ⟨?_, ?_, fun n => ?_⟩
  · unfold SymphonyBoard.observe
    exact h.key
  · unfold SymphonyBoard.observe
    exact h.canonicalName
  · rw [get?_observe, get?_observe, h.names n]

theorem observe_swap (s s' : Sighting) (acc : ActorAccumulator) :
    SameActor (observe s' (observe s acc)) (observe s (observe s' acc)) := by
  refine ⟨rfl, rfl, fun n => ?_⟩
  simp only [get?_observe]
  by_cases hs : cleanSignal (some s.actor) = some n
  · simp only [if_pos hs]
    split <;> rfl
  · simp only [if_neg hs]

theorem get?_see {scan : DirectoryScan} {s : Sighting} (h : s.key ≠ "") (k : String) :
    (scan.see s).accs.map.get? k = if s.key = k then
      some (observe s ((scan.accs.map.get? k).getD (actorAccumulator k)))
      else scan.accs.map.get? k := by
  have hkey : nonEmpty (some s.key) = some s.key := by simp [nonEmpty, h]
  rw [DirectoryScan.see, if_neg h]
  simp only [recordActor, hkey, ActorMap.update, OrdMap.get?_upsert]
  by_cases hk : s.key = k
  · subst hk
    rfl
  · exact (if_neg hk).trans (if_neg hk).symm

theorem mem_setAdd {α : Type} [DecidableEq α] {set : List α} {x y : α} :
    y ∈ setAdd set x ↔ y ∈ set ∨ y = x := by
  unfold setAdd
  split
  · rename_i hx
    constructor
    · exact Or.inl
    · rintro (hy | rfl)
      · exact hy
      · exact hx
  · rw [List.mem_append, List.mem_singleton]

theorem mem_sources_see {scan : DirectoryScan} {s : Sighting} (h : s.key ≠ "") {k : String}
    {sourceId : SourceId} :
    sourceId ∈ (scan.see s).sources k ↔ sourceId ∈ scan.sources k ∨ (s.key = k ∧ sourceId = s.sourceId) := by
  rw [DirectoryScan.see, if_neg h]
  simp only [DirectoryScan.sources, OrdMap.get?_upsert]
  by_cases hk : s.key = k
  · subst hk
    rw [if_pos rfl, Option.getD_some, mem_setAdd]
    simp
  · rw [if_neg hk]
    simp [hk]

theorem mem_storedKeys_see {scan : DirectoryScan} {s : Sighting} (h : s.key ≠ "") {k : String} :
    k ∈ (scan.see s).storedKeys ↔ k ∈ scan.storedKeys ∨ (s.stored = true ∧ k = s.key) := by
  rw [DirectoryScan.see, if_neg h]
  cases hs : s.stored
  · simp
  · simp [mem_setAdd]

theorem mem_derivedKeys_see {scan : DirectoryScan} {s : Sighting} (h : s.key ≠ "") {k : String} :
    k ∈ (scan.see s).derivedKeys ↔ k ∈ scan.derivedKeys ∨ (s.stored = false ∧ k = s.key) := by
  rw [DirectoryScan.see, if_neg h]
  cases hs : s.stored
  · simp [mem_setAdd]
  · simp

/-- Two scans that saw the same. -/
structure SameScan (scan scan' : DirectoryScan) : Prop where
  accs : OrdMap.Rel SameActor scan.accs.map scan'.accs.map
  sources : ∀ k sourceId, sourceId ∈ scan.sources k ↔ sourceId ∈ scan'.sources k
  storedKeys : ∀ k, k ∈ scan.storedKeys ↔ k ∈ scan'.storedKeys
  derivedKeys : ∀ k, k ∈ scan.derivedKeys ↔ k ∈ scan'.derivedKeys

namespace SameScan

theorem refl (scan : DirectoryScan) : SameScan scan scan :=
  ⟨OrdMap.Rel.refl SameActor.refl scan.accs.map, fun _ _ => Iff.rfl, fun _ => Iff.rfl,
    fun _ => Iff.rfl⟩

theorem trans {scan scan' scan'' : DirectoryScan} (h : SameScan scan scan')
    (h' : SameScan scan' scan'') : SameScan scan scan'' :=
  ⟨OrdMap.Rel.trans (R := SameActor) (fun _ _ _ => SameActor.trans) h.accs h'.accs, fun k i => (h.sources k i).trans (h'.sources k i),
    fun k => (h.storedKeys k).trans (h'.storedKeys k),
    fun k => (h.derivedKeys k).trans (h'.derivedKeys k)⟩

/-- A sighting adds the same to both. -/
theorem see {scan scan' : DirectoryScan} (h : SameScan scan scan') (s : Sighting) :
    SameScan (scan.see s) (scan'.see s) := by
  by_cases hs : s.key = ""
  · rw [DirectoryScan.see, if_pos hs, DirectoryScan.see, if_pos hs]
    exact h
  · refine ⟨fun k => ?_, fun k i => ?_, fun k => ?_, fun k => ?_⟩
    · rw [get?_see hs, get?_see hs]
      have hk := h.accs k
      split
      · refine .some (SameActor.observe ?_ s)
        generalize scan.accs.map.get? k = o at hk ⊢
        generalize scan'.accs.map.get? k = o' at hk ⊢
        cases hk with
        | some hacc => exact hacc
        | none => exact SameActor.refl _
      · exact hk
    · rw [mem_sources_see hs, mem_sources_see hs, h.sources]
    · rw [mem_storedKeys_see hs, mem_storedKeys_see hs, h.storedKeys]
    · rw [mem_derivedKeys_see hs, mem_derivedKeys_see hs, h.derivedKeys]

/-- Two sightings may be swapped. -/
theorem see_swap (scan : DirectoryScan) (s s' : Sighting) :
    SameScan ((scan.see s).see s') ((scan.see s').see s) := by
  have hskip : ∀ (scan : DirectoryScan) (s : Sighting), s.key = "" → scan.see s = scan :=
    fun scan s hs => if_pos hs
  by_cases hs : s.key = ""
  · rw [hskip _ s hs, hskip _ s hs]
    exact refl _
  by_cases hs' : s'.key = ""
  · rw [hskip _ s' hs', hskip _ s' hs']
    exact refl _
  refine ⟨fun k => ?_, fun k i => ?_, fun k => ?_, fun k => ?_⟩
  · simp only [get?_see hs, get?_see hs']
    by_cases hk : s.key = k
    · by_cases hk' : s'.key = k
      · simp only [if_pos hk, if_pos hk', Option.getD_some]
        exact .some (observe_swap s s' _)
      · simp only [if_pos hk, if_neg hk']
        exact .some (SameActor.refl _)
    · simp only [if_neg hk]
      exact OrdMap.optionRel_refl SameActor.refl _
  · simp only [mem_sources_see hs, mem_sources_see hs']
    exact or_right_comm
  · simp only [mem_storedKeys_see hs, mem_storedKeys_see hs']
    exact or_right_comm
  · simp only [mem_derivedKeys_see hs, mem_derivedKeys_see hs']
    exact or_right_comm

end SameScan

/-- **The scan in any order.** -/
theorem sameScan_ofActivities {activities activities' : List ActorActivity}
    (h : activities.Perm activities') (actorKeys : OrdMap Ref (Option (StoredActorKey rt))) :
    SameScan (DirectoryScan.ofActivities activities actorKeys)
      (DirectoryScan.ofActivities activities' actorKeys) :=
  foldl_related SameScan.refl (fun _ _ _ => SameScan.trans) (h.filterMap (sighting actorKeys))
    (fun s _ _ _ hscan => hscan.see s) (fun s _ s' _ scan => SameScan.see_swap scan s s')
    (SameScan.refl _)

/-! ## Claims -/

variable (rt) in
/-- The identity that claims the actor of a key. -/
def DirectoryScan.claimOf (scan : DirectoryScan) (matchers : List IdentityMatcher) (key : String) :
    Option IdentityMatcher :=
  (scan.accs.map.get? key).bind (scan.claim rt matchers)

variable (rt) in
/-- No actor is claimed by two identities on two of its sources. -/
def AgreedClaims (scan : DirectoryScan) (matchers : List IdentityMatcher) : Prop :=
  ∀ acc ∈ scan.accs.values, ∀ s ∈ scan.sources acc.key, ∀ s' ∈ scan.sources acc.key, ∀ m m',
    resolveIdentity rt acc matchers s.val = some m →
      resolveIdentity rt acc matchers s'.val = some m' → m = m'

/-- The first answer is the same in any order, where all answers are. -/
theorem findSome?_eq_of_agree {α β : Type} {f g : α → Option β} {l l' : List α}
    (hmem : ∀ x, x ∈ l ↔ x ∈ l') (hfg : ∀ x, f x = g x)
    (hagree : ∀ x ∈ l, ∀ y ∈ l, ∀ a b, f x = some a → f y = some b → a = b) :
    l.findSome? f = l'.findSome? g := by
  cases hl : l.findSome? f with
  | none =>
    rw [List.findSome?_eq_none_iff] at hl
    refine (List.findSome?_eq_none_iff.mpr fun x hx => ?_).symm
    rw [← hfg]
    exact hl x ((hmem x).mpr hx)
  | some a =>
    obtain ⟨x, hx, ha⟩ := List.exists_of_findSome?_eq_some hl
    cases hl' : l'.findSome? g with
    | none =>
      have hnone := List.findSome?_eq_none_iff.mp hl' x ((hmem x).mp hx)
      rw [← hfg, ha] at hnone
      cases hnone
    | some b =>
      obtain ⟨y, hy, hb⟩ := List.exists_of_findSome?_eq_some hl'
      rw [← hfg] at hb
      exact congrArg some (hagree x hx y ((hmem y).mpr hy) a b ha hb)

theorem SameScan.claimOf_eq {scan scan' : DirectoryScan} (h : SameScan scan scan')
    {matchers : List IdentityMatcher} (hagreed : AgreedClaims rt scan matchers) (key : String) :
    scan.claimOf rt matchers key = scan'.claimOf rt matchers key := by
  unfold DirectoryScan.claimOf
  cases hacc : scan.accs.map.get? key with
  | none =>
    have hnone := h.accs key
    rw [hacc] at hnone
    generalize scan'.accs.map.get? key = o at hnone
    cases hnone
    rfl
  | some acc =>
    obtain ⟨acc', hacc', hsame⟩ := h.accs.get hacc
    rw [hacc', Option.bind_some, Option.bind_some, DirectoryScan.claim, DirectoryScan.claim,
      ← hsame.key]
    exact findSome?_eq_of_agree (h.sources acc.key)
      (fun s => hsame.resolveIdentity_eq matchers s.val)
      (hagreed acc (OrdMap.mem_values_iff.mpr ⟨key, hacc⟩))

theorem DirectoryScan.claim_mem {scan : DirectoryScan} {matchers : List IdentityMatcher}
    {acc : ActorAccumulator} {m : IdentityMatcher} (h : scan.claim rt matchers acc = some m) :
    m ∈ matchers := by
  obtain ⟨s, -, hm⟩ := List.exists_of_findSome?_eq_some h
  exact List.mem_of_find?_eq_some hm

/-- Actors that go to one group are claimed alike. -/
theorem rowStart_eq_of_key {matchers : List IdentityMatcher}
    (hkeys : (matchers.map (·.key)).Nodup) (hperson : ∀ m ∈ matchers, IsPersonKey m.key)
    {acc acc' : ActorAccumulator} {claim claim' : Option IdentityMatcher}
    (hclaim : ∀ m, claim = some m → m ∈ matchers) (hclaim' : ∀ m, claim' = some m → m ∈ matchers)
    (hacc : ¬IsPersonKey acc.key) (hacc' : ¬IsPersonKey acc'.key)
    (h : (rowStart acc claim).key = (rowStart acc' claim').key) :
    claim = claim' ∧ rowStart acc claim = rowStart acc' claim' := by
  cases claim with
  | none =>
    cases claim' with
    | none => exact ⟨rfl, congrArg actorAccumulator h⟩
    | some m' =>
      have hkey : acc.key = m'.key := h
      exact absurd (hperson m' (hclaim' m' rfl)) (hkey ▸ hacc)
  | some m =>
    cases claim' with
    | none =>
      have hkey : m.key = acc'.key := h
      exact absurd (hperson m (hclaim m rfl)) (hkey ▸ hacc')
    | some m' =>
      obtain rfl := List.inj_on_of_nodup_map hkeys (hclaim m rfl) (hclaim' m' rfl) h
      exact ⟨rfl, rfl⟩

/-! ## The merge -/

theorem get?_addCounts (target counts : OrdMap String ℕ) (n : String) :
    (addCounts target counts).get? n = match counts.get? n with
      | none => target.get? n
      | some c => some ((target.get? n).getD 0 + c) := by
  rw [addCounts, OrdMap.get?_foldl_upsert Prod.fst (fun e o => o.getD 0 + e.2),
    OrdMap.filter_entries]
  cases counts.get? n <;> rfl

/-- One group, its actors merged in two orders. -/
structure SameMerged (m m' : MergedActor) : Prop where
  acc : SameActor m.acc m'.acc
  bot : m.bot = m'.bot
  claimKey : m.claimKey = m'.claimKey

theorem SameMerged.refl (m : MergedActor) : SameMerged m m := ⟨SameActor.refl _, rfl, rfl⟩

theorem SameMerged.trans {m m' m'' : MergedActor} (h : SameMerged m m') (h' : SameMerged m' m'') :
    SameMerged m m'' :=
  ⟨h.acc.trans h'.acc, h.bot.trans h'.bot, h.claimKey.trans h'.claimKey⟩

/-- What is known of a group after an actor was added. -/
theorem mergeActor_fields (claim : Option IdentityMatcher) (bot : Bool) (acc : ActorAccumulator)
    (entry : Option MergedActor) :
    let start := entry.getD ⟨rowStart acc claim, true, claim.map (·.key)⟩
    let merged := mergeActor claim bot acc entry
    merged.acc.key = start.acc.key ∧ merged.acc.canonicalName = start.acc.canonicalName ∧
    merged.bot = (start.bot && bot) ∧ merged.claimKey = start.claimKey ∧
    ∀ n, merged.acc.names.get? n = match acc.names.get? n with
      | none => start.acc.names.get? n
      | some c => some ((start.acc.names.get? n).getD 0 + c) := by
  cases entry with
  | none => exact ⟨rfl, rfl, (Bool.true_and bot).symm, rfl, get?_addCounts _ _⟩
  | some entry => exact ⟨rfl, rfl, rfl, rfl, get?_addCounts _ _⟩

theorem SameMerged.mergeActor {entry entry' : Option MergedActor}
    (h : Option.Rel SameMerged entry entry') {acc acc' : ActorAccumulator}
    (hacc : SameActor acc acc') (claim : Option IdentityMatcher) (bot : Bool) :
    SameMerged (mergeActor claim bot acc entry) (SymphonyBoard.mergeActor claim bot acc' entry') := by
  have hstart : SameMerged (entry.getD ⟨rowStart acc claim, true, claim.map (·.key)⟩)
      (entry'.getD ⟨rowStart acc' claim, true, claim.map (·.key)⟩) := by
    cases h with
    | some h => exact h
    | none =>
      rw [hacc.rowStart_eq]
      exact refl _
  obtain ⟨hkey, hname, hbot, hclaim, hnames⟩ := mergeActor_fields claim bot acc entry
  obtain ⟨hkey', hname', hbot', hclaim', hnames'⟩ := mergeActor_fields claim bot acc' entry'
  refine ⟨⟨?_, ?_, fun n => ?_⟩, ?_, ?_⟩
  · rw [hkey, hkey', hstart.acc.key]
  · rw [hname, hname', hstart.acc.canonicalName]
  · rw [hnames, hnames', hacc.names n, hstart.acc.names n]
  · rw [hbot, hbot', hstart.bot]
  · rw [hclaim, hclaim', hstart.claimKey]

/-- Two actors of one group may be swapped. -/
theorem mergeActor_swap {claim claim' : Option IdentityMatcher} (bot bot' : Bool)
    {acc acc' : ActorAccumulator} (hclaim : claim = claim')
    (hstart : rowStart acc claim = rowStart acc' claim') (entry : Option MergedActor) :
    SameMerged (mergeActor claim' bot' acc' (some (mergeActor claim bot acc entry)))
      (mergeActor claim bot acc (some (mergeActor claim' bot' acc' entry))) := by
  subst hclaim
  obtain ⟨hkey, hname, hbot, hkeys, hnames⟩ := mergeActor_fields claim bot acc entry
  obtain ⟨hkey', hname', hbot', hkeys', hnames'⟩ := mergeActor_fields claim bot' acc' entry
  obtain ⟨hkey₂, hname₂, hbot₂, hkeys₂, hnames₂⟩ :=
    mergeActor_fields claim bot' acc' (some (mergeActor claim bot acc entry))
  obtain ⟨hkey₂', hname₂', hbot₂', hkeys₂', hnames₂'⟩ :=
    mergeActor_fields claim bot acc (some (mergeActor claim bot' acc' entry))
  simp only [Option.getD_some] at hkey₂ hname₂ hbot₂ hkeys₂ hnames₂ hkey₂' hname₂' hbot₂' hkeys₂' hnames₂'
  rw [← hstart] at hkey' hname' hbot' hkeys' hnames'
  refine ⟨⟨?_, ?_, fun n => ?_⟩, ?_, ?_⟩
  · rw [hkey₂, hkey₂', hkey, hkey']
  · rw [hname₂, hname₂', hname, hname']
  · rw [hnames₂, hnames₂', hnames, hnames']
    cases acc.names.get? n with
    | none => rfl
    | some c =>
      cases acc'.names.get? n with
      | none => rfl
      | some c' =>
        simp only [Option.getD_some]
        exact congrArg some (Nat.add_right_comm _ c c')
  · rw [hbot₂, hbot₂', hbot, hbot', Bool.and_right_comm]
  · rw [hkeys₂, hkeys₂', hkeys, hkeys']

/-! ## What the groups show -/

/-- The actor strings of the activities. -/
def actorStrings (activities : List ActorActivity) : List String :=
  activities.filterMap fun a => cleanSignal a.actor

/-- An accumulator of the scan: its key is no identity's, and its names are
strings that were seen, one at least. -/
structure Seen (strings : List String) (acc : ActorAccumulator) : Prop where
  key : ¬IsPersonKey acc.key
  named : ∃ n, (acc.names.get? n).isSome = true
  names : ∀ n, (acc.names.get? n).isSome = true → n ∈ strings

theorem cleanSignal_cleanSignal {value : Option String} {s : String} (h : cleanSignal value = some s) :
    cleanSignal (some s) = some s := by
  obtain ⟨hs, hne⟩ := Option.filter_eq_some_iff.mp h
  obtain ⟨raw, -, rfl⟩ := Option.map_eq_some_iff.mp hs
  unfold cleanSignal nonEmpty
  rw [Option.map_some, trim_trim, Option.filter_eq_some_iff]
  exact ⟨rfl, hne⟩

/-- What a sighting's key and string are. -/
theorem sighting_eq_some {actorKeys : OrdMap Ref (Option (StoredActorKey rt))} {a : ActorActivity}
    {s : Sighting} (h : sighting actorKeys a = some s) :
    cleanSignal a.actor = some s.actor ∧ ¬IsPersonKey s.key := by
  unfold sighting at h
  cases hactor : cleanSignal a.actor with
  | none =>
    rw [hactor] at h
    cases h
  | some actor =>
    rw [hactor] at h
    cases hstored : (actorKeys.get? (refOf a.sourceId a.externalId)).join with
    | some stored =>
      simp only [hstored] at h
      obtain rfl := Option.some.inj h
      obtain ⟨signals, hkey⟩ := stored.derived
      exact ⟨rfl, deriveActorKey_not_person rt hkey⟩
    | none =>
      simp only [hstored] at h
      obtain ⟨key, hkey, rfl⟩ := Option.map_eq_some_iff.mp h
      exact ⟨rfl, deriveActorKey_not_person rt hkey⟩

theorem ofActivities_seen {activities : List ActorActivity}
    {actorKeys : OrdMap Ref (Option (StoredActorKey rt))} {k : String} {acc : ActorAccumulator}
    (h : (DirectoryScan.ofActivities activities actorKeys).accs.map.get? k = some acc) :
    Seen (actorStrings activities) acc := by
  have aux : ∀ (l : List Sighting) (scan : DirectoryScan),
      (∀ s ∈ l, s.actor ∈ actorStrings activities ∧ cleanSignal (some s.actor) = some s.actor ∧
        ¬IsPersonKey s.key) →
      (∀ k acc, scan.accs.map.get? k = some acc → Seen (actorStrings activities) acc) →
      ∀ k acc, (l.foldl DirectoryScan.see scan).accs.map.get? k = some acc →
        Seen (actorStrings activities) acc := by
    intro l
    induction l with
    | nil => exact fun scan _ hscan => hscan
    | cons s l ih =>
      intro scan hl hscan
      obtain ⟨⟨hstring, hclean, hkey⟩, hl⟩ := List.forall_mem_cons.mp hl
      refine ih (scan.see s) hl fun k acc hacc => ?_
      -- a sighting without a key is passed over
      by_cases hs : s.key = ""
      · rw [DirectoryScan.see, if_pos hs] at hacc
        exact hscan k acc hacc
      rw [get?_see hs] at hacc
      split at hacc
      · rename_i hk
        obtain rfl := Option.some.inj hacc
        have hnames : ∀ old : ActorAccumulator, ∀ n,
            ((observe s old).names.get? n).isSome = true ↔
              s.actor = n ∨ (old.names.get? n).isSome = true := by
          intro old n
          simp only [get?_observe, hclean, Option.some.injEq]
          by_cases hn : s.actor = n
          · simp [hn]
          · simp [hn]
        cases hold : scan.accs.map.get? k with
        | none =>
          refine ⟨hk ▸ hkey, ⟨s.actor, (hnames _ _).mpr (Or.inl rfl)⟩, fun n hn => ?_⟩
          rcases (hnames _ _).mp hn with rfl | hn
          · exact hstring
          · cases hn
        | some old =>
          have hseen := hscan k old hold
          refine ⟨hseen.key, ⟨s.actor, (hnames _ _).mpr (Or.inl rfl)⟩, fun n hn => ?_⟩
          rcases (hnames _ _).mp hn with rfl | hn
          · exact hstring
          · exact hseen.names n hn
      · exact hscan k acc hacc
  refine aux _ _ (fun s hs => ?_) (fun _ _ hnone => ?_) k acc h
  · obtain ⟨a, ha, hsighting⟩ := List.mem_filterMap.mp hs
    obtain ⟨hactor, hkey⟩ := sighting_eq_some hsighting
    exact ⟨List.mem_filterMap.mpr ⟨a, ha, hactor⟩, cleanSignal_cleanSignal hactor, hkey⟩
  · cases hnone

/-- A group: what it shows are strings, and if it is declared it has a name
of its own. -/
structure Grouped (strings : List String) (m : MergedActor) : Prop where
  named : ∃ n, (m.acc.names.get? n).isSome = true
  names : ∀ n, (m.acc.names.get? n).isSome = true → n ∈ strings
  canonicalName : ∀ c, m.acc.canonicalName = some c → c ∈ strings
  declared : m.claimKey.isSome = true → ∃ c, nonEmpty m.acc.canonicalName = some c

/-- What the merge is given: identities with keys and names of their own,
and actors of the scan. -/
structure Mergeable (strings : List String) (matchers : List IdentityMatcher)
    (scan : DirectoryScan) : Prop where
  keys : (matchers.map (·.key)).Nodup
  person : ∀ m ∈ matchers, IsPersonKey m.key
  names : ∀ m ∈ matchers, m.name ≠ "" ∧ m.name ∈ strings
  seen : ∀ k acc, scan.accs.map.get? k = some acc → Seen strings acc

section Merge

variable {strings : List String} {matchers : List IdentityMatcher} {scan scan' : DirectoryScan}
  {excludes : List (String → Bool)}

theorem mergeActors_grouped (h : Mergeable strings matchers scan) {k : String} {m : MergedActor}
    (hm : (mergeActors rt scan matchers excludes).get? k = some m) : Grouped strings m := by
  refine OrdMap.forall_foldl_upsert (P := Grouped strings) _ _ (fun b hb entry hentry => ?_)
    (fun _ _ hnone => by cases hnone) hm
  have hseen := h.seen b.1 b.2 (OrdMap.mem_entries_iff.mp hb)
  obtain ⟨-, hname, -, hclaim, hnames⟩ := mergeActor_fields (scan.claim rt matchers b.2)
    (isAutoBot b.1 || isExcludedActor rt b.2 excludes) b.2 entry
  obtain ⟨n₀, hn₀⟩ := hseen.named
  refine ⟨⟨n₀, ?_⟩, fun n hn => ?_, fun c hc => ?_, fun hdeclared => ?_⟩
  · rw [hnames]
    cases hold : b.2.names.get? n₀ with
    | none =>
      rw [hold] at hn₀
      cases hn₀
    | some c => rfl
  · rw [hnames] at hn
    cases hold : b.2.names.get? n with
    | some c => exact hseen.names n (by rw [hold]; rfl)
    | none =>
      rw [hold] at hn
      cases entry with
      | some entry => exact (hentry entry rfl).names n hn
      | none =>
        cases hclaimed : scan.claim rt matchers b.2 <;> simp only [hclaimed] at hn <;> cases hn
  · -- the name is the group's own, or that of the identity that claims it
    rw [hname] at hc
    cases entry with
    | some entry => exact (hentry entry rfl).canonicalName c hc
    | none =>
      cases hclaimed : scan.claim rt matchers b.2 with
      | none =>
        simp only [hclaimed] at hc
        cases hc
      | some m =>
        simp only [hclaimed] at hc
        obtain rfl := Option.some.inj hc
        exact (h.names m (DirectoryScan.claim_mem hclaimed)).2
  · rw [hclaim] at hdeclared
    rw [hname]
    cases entry with
    | some entry => exact (hentry entry rfl).declared hdeclared
    | none =>
      cases hclaimed : scan.claim rt matchers b.2 with
      | none =>
        simp only [hclaimed] at hdeclared
        cases hdeclared
      | some m =>
        have hne := (h.names m (DirectoryScan.claim_mem hclaimed)).1
        exact ⟨m.name, by simp [rowStart, nonEmpty, hne]⟩

theorem get?_mergeStep (merged : OrdMap String MergedActor) (b : String × ActorAccumulator)
    (t : String) :
    (mergeStep rt scan matchers excludes merged b).get? t =
      if (rowStart b.2 (scan.claim rt matchers b.2)).key = t then
        some (mergeActor (scan.claim rt matchers b.2)
          (isAutoBot b.1 || isExcludedActor rt b.2 excludes) b.2 (merged.get? t))
      else merged.get? t := by
  rw [mergeStep, OrdMap.get?_upsert]
  by_cases ht : (rowStart b.2 (scan.claim rt matchers b.2)).key = t
  · rw [if_pos ht, if_pos ht, ht]
  · rw [if_neg ht, if_neg ht]

/-- Two actors alike and claimed alike are merged alike. -/
theorem mergeStep_related {merged merged' : OrdMap String MergedActor}
    (h : OrdMap.Rel SameMerged merged merged') {b b' : String × ActorAccumulator} (hkey : b.1 = b'.1)
    (hacc : SameActor b.2 b'.2) (hclaim : scan.claim rt matchers b.2 = scan'.claim rt matchers b'.2) :
    OrdMap.Rel SameMerged (mergeStep rt scan matchers excludes merged b)
      (mergeStep rt scan' matchers excludes merged' b') := by
  intro t
  rw [get?_mergeStep, get?_mergeStep, ← hclaim, ← hkey, hacc.rowStart_eq, hacc.isExcludedActor_eq]
  split
  · exact .some (SameMerged.mergeActor (h t) hacc _ _)
  · exact h t

theorem mergeStep_swap (h : Mergeable strings matchers scan) {b b' : String × ActorAccumulator}
    (hb : b ∈ scan.accs.map.entries) (hb' : b' ∈ scan.accs.map.entries)
    (merged : OrdMap String MergedActor) :
    OrdMap.Rel SameMerged
      (mergeStep rt scan matchers excludes (mergeStep rt scan matchers excludes merged b) b')
      (mergeStep rt scan matchers excludes (mergeStep rt scan matchers excludes merged b') b) := by
  intro t
  simp only [get?_mergeStep]
  by_cases hk : (rowStart b.2 (scan.claim rt matchers b.2)).key = t
  · by_cases hk' : (rowStart b'.2 (scan.claim rt matchers b'.2)).key = t
    · obtain ⟨hclaim, hstart⟩ := rowStart_eq_of_key h.keys h.person
        (fun m => DirectoryScan.claim_mem) (fun m => DirectoryScan.claim_mem)
        (h.seen _ _ (OrdMap.mem_entries_iff.mp hb)).key
        (h.seen _ _ (OrdMap.mem_entries_iff.mp hb')).key (hk.trans hk'.symm)
      simp only [if_pos hk, if_pos hk']
      exact .some (mergeActor_swap _ _ hclaim hstart _)
    · simp only [if_pos hk, if_neg hk']
      exact .some (SameMerged.refl _)
  · simp only [if_neg hk]
    exact OrdMap.optionRel_refl SameMerged.refl _

variable (excludes) in
/-- **The merge in any order**, claims being equal. -/
theorem sameMerged_mergeActors (h : Mergeable strings matchers scan) (hscan : SameScan scan scan')
    (hclaims : ∀ key, scan.claimOf rt matchers key = scan'.claimOf rt matchers key) :
    OrdMap.Rel SameMerged (mergeActors rt scan matchers excludes)
      (mergeActors rt scan' matchers excludes) := by
  obtain ⟨l, hperm, hforall⟩ := hscan.accs.entries
  have hstep : ∀ b ∈ scan.accs.map.entries, ∀ merged merged', OrdMap.Rel SameMerged merged merged' →
      OrdMap.Rel SameMerged (mergeStep rt scan matchers excludes merged b)
        (mergeStep rt scan matchers excludes merged' b) :=
    fun b _ merged merged' hmerged => mergeStep_related hmerged rfl (SameActor.refl b.2) rfl
  have hreorder : OrdMap.Rel SameMerged (mergeActors rt scan matchers excludes)
      (l.foldl (mergeStep rt scan matchers excludes) OrdMap.empty) :=
    foldl_related (R := OrdMap.Rel SameMerged) (OrdMap.Rel.refl SameMerged.refl)
      (fun _ _ _ => OrdMap.Rel.trans (R := SameMerged) fun _ _ _ => SameMerged.trans) hperm hstep
      (fun b hb b' hb' merged => mergeStep_swap h hb hb' merged)
      (OrdMap.Rel.refl SameMerged.refl _)
  refine OrdMap.Rel.trans (R := SameMerged) (fun _ _ _ => SameMerged.trans) hreorder ?_
  refine foldl_related_of_forall₂ (R := OrdMap.Rel SameMerged) ?_ hforall
    (OrdMap.Rel.refl SameMerged.refl _)
  rintro merged merged' b b' hmerged ⟨hkey, hb, hb', hacc⟩
  refine mergeStep_related hmerged hkey hacc ?_
  have hclaim := hclaims b.1
  unfold DirectoryScan.claimOf at hclaim
  rw [OrdMap.mem_entries_iff.mp hb, hkey, OrdMap.mem_entries_iff.mp hb'] at hclaim
  exact hclaim

end Merge

end SymphonyBoard
