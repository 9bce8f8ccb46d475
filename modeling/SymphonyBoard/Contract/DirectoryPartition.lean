import SymphonyBoard.Contract.DirectoryOrder
/-!
# The same directory for every order

From the groups on, every stage of `buildActorDirectory` asks only which
groups hold which strings, so groups that show the same strings end as the
same identities (`SameEntry`). Names are chosen by an order of names, and
are the same as far as it tells the strings apart.
-/

namespace SymphonyBoard

variable {rt : TextRuntime} {strings : List String}

variable (rt) in
/-- The order of names is one, and tells the strings apart. -/
structure Separates (strings : List String) : Prop where
  trans : Std.TransCmp rt.localeCompare
  separates : ∀ a ∈ strings, ∀ b ∈ strings, compareName rt a b = .eq → a = b

instance transCmp_compareName [Std.TransCmp rt.localeCompare] : Std.TransCmp (compareName rt) := by
  unfold compareName
  infer_instance

instance transCmp_compareObserved [Std.TransCmp rt.localeCompare] :
    Std.TransCmp (compareObserved rt) := by
  have hcount : Std.TransCmp fun a b : String × ℕ => compare b.2 a.2 :=
    @Std.TransCmp.opposite _ (on compare Prod.snd) _
  unfold compareObserved
  infer_instance

/-! ## Display names -/

variable (rt) in
theorem mem_observedNames {acc : ActorAccumulator} {s : String} :
    s ∈ observedNames rt acc ↔ (acc.names.get? s).isSome = true := by
  rw [observedNames, List.mem_map, Option.isSome_iff_exists]
  constructor
  · rintro ⟨b, hb, rfl⟩
    exact ⟨b.2, OrdMap.mem_entries_iff.mp (mem_sortBy.mp hb)⟩
  · rintro ⟨c, hc⟩
    exact ⟨(s, c), mem_sortBy.mpr (OrdMap.mem_entries_iff.mpr hc), rfl⟩

/-- An actor shows its names, and its declared one. -/
theorem mem_display {acc : ActorAccumulator} (hnamed : ∃ n, (acc.names.get? n).isSome = true)
    {s : String} :
    s ∈ (chooseDisplayName rt acc).1 :: (chooseDisplayName rt acc).2 ↔
      nonEmpty acc.canonicalName = some s ∨ (acc.names.get? s).isSome = true := by
  rw [← mem_observedNames rt]
  obtain ⟨n, hn⟩ := hnamed
  have hn := (mem_observedNames rt).mpr hn
  unfold chooseDisplayName
  cases hname : nonEmpty acc.canonicalName with
  | some c =>
    simp only [List.mem_cons, mem_sortBy, List.mem_filter, Option.some.injEq, decide_eq_true_eq]
    constructor
    · rintro (rfl | ⟨h, -⟩)
      · exact Or.inl rfl
      · exact Or.inr h
    · rintro (rfl | h)
      · exact Or.inl rfl
      · by_cases hs : s = c
        · exact Or.inl hs
        · exact Or.inr ⟨h, hs⟩
  | none =>
    cases hobserved : observedNames rt acc with
    | nil =>
      rw [hobserved] at hn
      cases hn
    | cons name aliases => simp [mem_sortBy]

theorem display_canonical {acc : ActorAccumulator} {c : String}
    (h : nonEmpty acc.canonicalName = some c) : (chooseDisplayName rt acc).1 = c := by
  unfold chooseDisplayName
  rw [h]

theorem display_observed {acc : ActorAccumulator} (h : nonEmpty acc.canonicalName = none) :
    (chooseDisplayName rt acc).1 = (observedNames rt acc).head?.getD acc.key := by
  unfold chooseDisplayName
  rw [h]
  cases observedNames rt acc <;> rfl

/-- Where the strings are told apart, the name does not depend on the order
they were counted in. -/
theorem SameActor.display_eq {acc acc' : ActorAccumulator} (h : SameActor acc acc')
    (hsep : Separates rt strings) (hnames : ∀ n, (acc.names.get? n).isSome = true → n ∈ strings) :
    (chooseDisplayName rt acc).1 = (chooseDisplayName rt acc').1 := by
  have htrans := hsep.trans
  cases hname : nonEmpty acc.canonicalName with
  | some c =>
    rw [display_canonical hname, display_canonical (h.canonicalName ▸ hname)]
  | none =>
    rw [display_observed hname, display_observed (h.canonicalName ▸ hname), h.key, observedNames,
      observedNames, List.head?_map, List.head?_map]
    have hhead := head?_sortBy_eq (h := @transCmp_compareObserved rt htrans)
      (fun b => h.entries_perm.mem_iff (a := b)) ?_
    · rw [hhead]
    · rintro ⟨n, c⟩ hb ⟨n', c'⟩ hb' heq
      obtain ⟨hcount, hn⟩ := Ordering.then_eq_eq.mp heq
      have hmem : ∀ {n c}, (n, c) ∈ acc.names.entries → n ∈ strings := by
        intro n c hb
        exact hnames n (by rw [OrdMap.mem_entries_iff.mp hb]; rfl)
      have hcount : c' = c := Nat.compare_eq_eq.mp hcount
      rw [hsep.separates n (hmem hb) n' (hmem hb') hn, hcount]

/-! ## Entries -/

variable (rt strings) in
/-- One group, as seen from two orders of the activities. -/
structure SameEntry (entry entry' : DirectoryEntry) : Prop where
  actors : ∀ actor, actor ∈ entry.actors ↔ actor ∈ entry'.actors
  bot : entry.bot = entry'.bot
  declared : entry.declared = entry'.declared
  keyless : entry.keyless = entry'.keyless
  declaredName : entry.declared = true → entry.name = entry'.name
  name : Separates rt strings → entry.name = entry'.name

theorem SameEntry.symm {entry entry' : DirectoryEntry} (h : SameEntry rt strings entry entry') :
    SameEntry rt strings entry' entry :=
  ⟨fun actor => (h.actors actor).symm, h.bot.symm, h.declared.symm, h.keyless.symm,
    fun hdeclared => (h.declaredName (h.declared ▸ hdeclared)).symm, fun hsep => (h.name hsep).symm⟩

theorem sameEntry_directoryEntry {scan scan' : DirectoryScan} (hscan : SameScan scan scan')
    {m m' : MergedActor} (h : SameMerged m m') (hm : Grouped strings m) (k : String) :
    SameEntry rt strings (directoryEntry rt scan k m) (directoryEntry rt scan' k m') := by
  obtain ⟨n, hn⟩ := hm.named
  refine ⟨fun actor => ?_, h.bot, congrArg Option.isSome h.claimKey, ?_, fun hdeclared => ?_,
    fun hsep => h.acc.display_eq hsep hm.names⟩
  · have hdisplay := @mem_display rt _ ⟨n, hn⟩ actor
    rw [h.acc.canonicalName, h.acc.names actor, ← mem_display ⟨n, h.acc.names n ▸ hn⟩] at hdisplay
    exact hdisplay
  · simp only [directoryEntry, h.claimKey, hscan.storedKeys k, hscan.derivedKeys k]
  · obtain ⟨c, hc⟩ := hm.declared hdeclared
    exact (display_canonical hc).trans (display_canonical (h.acc.canonicalName ▸ hc)).symm

theorem directoryEntry_actors {scan : DirectoryScan} {m : MergedActor} (hm : Grouped strings m)
    (k : String) : ∀ actor ∈ (directoryEntry rt scan k m).actors, actor ∈ strings := by
  intro actor hactor
  rcases (mem_display hm.named).mp hactor with hc | hn
  · exact hm.canonicalName actor (Option.filter_eq_some_iff.mp hc).1
  · exact hm.names actor hn

/-! ## The fold -/

theorem onlyOne_perm {α : Type} {l l' : List α} (h : l.Perm l') : onlyOne l = onlyOne l' := by
  have hone : ∀ {l l' : List α}, l.Perm l' → ∀ x, onlyOne l = some x → onlyOne l' = some x := by
    intro l l' h x hx
    rw [onlyOne_eq_some] at hx ⊢
    subst hx
    exact (List.singleton_perm.mp h).symm
  exact Option.ext fun x => ⟨hone h x, hone h.symm x⟩

section Stages

variable {entries entries' : OrdMap String DirectoryEntry} {entry entry' : DirectoryEntry}

theorem foldTarget_eq (h : OrdMap.Rel (SameEntry rt strings) entries entries')
    (hentry : SameEntry rt strings entry entry') :
    foldTarget entries entry = foldTarget entries' entry' := by
  refine onlyOne_perm (h.keysWhere fun owner owner' howner => ?_)
  have hany : (owner.actors.any fun actor => decide (actor ∈ entry.actors)) =
      owner'.actors.any fun actor => decide (actor ∈ entry'.actors) := by
    rw [Bool.eq_iff_iff]
    simp only [List.any_eq_true, decide_eq_true_eq, howner.actors, hentry.actors]
  rw [howner.keyless, hany]

theorem mem_foldl_setAdd {α : Type} [DecidableEq α] {l set : List α} {x : α} :
    x ∈ l.foldl setAdd set ↔ x ∈ set ∨ x ∈ l := by
  induction l generalizing set with
  | nil => simp
  | cons y l ih =>
    rw [List.foldl_cons, ih, mem_setAdd, List.mem_cons]
    exact or_assoc

/-- A group after it has absorbed some entries. -/
theorem foldl_absorb_fields (l : List DirectoryEntry) (entry : DirectoryEntry) :
    (∀ actor, actor ∈ (l.foldl absorb entry).actors ↔
      actor ∈ entry.actors ∨ ∃ e ∈ l, actor ∈ e.actors) ∧
    (l.foldl absorb entry).bot = (entry.bot || l.any (·.bot)) ∧
    (l.foldl absorb entry).declared = entry.declared ∧
    (l.foldl absorb entry).keyless = entry.keyless ∧ (l.foldl absorb entry).name = entry.name := by
  induction l generalizing entry with
  | nil => simp
  | cons e l ih =>
    obtain ⟨hactors, hbot, hrest⟩ := ih (absorb entry e)
    refine ⟨fun actor => ?_, ?_, hrest⟩
    · rw [List.foldl_cons, hactors, absorb, mem_foldl_setAdd, List.exists_mem_cons_iff, or_assoc]
    · rw [List.foldl_cons, hbot, List.any_cons, ← Bool.or_assoc]
      rfl

theorem mem_foldedInto {k : String} {e : DirectoryEntry} :
    e ∈ foldedInto entries k ↔
      (∃ k', entries.get? k' = some e) ∧ e.keyless = true ∧ foldTarget entries e = some k := by
  rw [foldedInto, List.mem_filter, OrdMap.mem_values_iff, Bool.and_eq_true, decide_eq_true_eq]

/-- What joins a group in one order joins it in the other. -/
theorem foldedInto_related (h : OrdMap.Rel (SameEntry rt strings) entries entries') {k : String}
    {e : DirectoryEntry} (he : e ∈ foldedInto entries k) :
    ∃ e' ∈ foldedInto entries' k, SameEntry rt strings e e' := by
  obtain ⟨⟨k', hk'⟩, hkeyless, htarget⟩ := mem_foldedInto.mp he
  obtain ⟨e', he', hsame⟩ := h.get hk'
  exact ⟨e', mem_foldedInto.mpr ⟨⟨k', he'⟩, hsame.keyless ▸ hkeyless,
    foldTarget_eq h hsame ▸ htarget⟩, hsame⟩

theorem sameEntry_symm (h : OrdMap.Rel (SameEntry rt strings) entries entries') :
    OrdMap.Rel (SameEntry rt strings) entries' entries :=
  h.flip.imp fun _ _ => SameEntry.symm

/-- **The fold keeps groups alike.** -/
theorem foldKeyless_related (h : OrdMap.Rel (SameEntry rt strings) entries entries') :
    OrdMap.Rel (SameEntry rt strings) (foldKeyless entries) (foldKeyless entries') := by
  have hkept := h.filter
    (p := fun entry => !(entry.keyless && (foldTarget entries entry).isSome))
    (q := fun entry => !(entry.keyless && (foldTarget entries' entry).isSome))
    fun e e' he => by rw [he.keyless, foldTarget_eq h he]
  refine hkept.mapBindings fun k e e' _ _ he => ?_
  obtain ⟨hactors, hbot, hdeclared, hkeyless, hname⟩ :=
    foldl_absorb_fields (foldedInto entries k) e
  obtain ⟨hactors', hbot', hdeclared', hkeyless', hname'⟩ :=
    foldl_absorb_fields (foldedInto entries' k) e'
  refine ⟨fun actor => ?_, ?_, ?_, ?_, fun hd => ?_, fun hsep => ?_⟩
  · rw [hactors, hactors', he.actors]
    constructor
    · rintro (hactor | ⟨x, hx, hactor⟩)
      · exact Or.inl hactor
      · obtain ⟨x', hx', hsame⟩ := foldedInto_related h hx
        exact Or.inr ⟨x', hx', (hsame.actors actor).mp hactor⟩
    · rintro (hactor | ⟨x, hx, hactor⟩)
      · exact Or.inl hactor
      · obtain ⟨x', hx', hsame⟩ := foldedInto_related (sameEntry_symm h) hx
        exact Or.inr ⟨x', hx', (hsame.actors actor).mp hactor⟩
  · have hany : (foldedInto entries k).any (·.bot) = (foldedInto entries' k).any (·.bot) := by
      rw [Bool.eq_iff_iff, List.any_eq_true, List.any_eq_true]
      constructor
      · rintro ⟨x, hx, hb⟩
        obtain ⟨x', hx', hsame⟩ := foldedInto_related h hx
        exact ⟨x', hx', hsame.bot ▸ hb⟩
      · rintro ⟨x, hx, hb⟩
        obtain ⟨x', hx', hsame⟩ := foldedInto_related (sameEntry_symm h) hx
        exact ⟨x', hx', hsame.bot ▸ hb⟩
    rw [hbot, hbot', he.bot, hany]
  · rw [hdeclared, hdeclared', he.declared]
  · rw [hkeyless, hkeyless', he.keyless]
  · rw [hname, hname']
    exact he.declaredName (hdeclared ▸ hd)
  · rw [hname, hname']
    exact he.name hsep

theorem holders_length_eq (h : OrdMap.Rel (SameEntry rt strings) entries entries') (actor : String) :
    (holders entries actor).length = (holders entries' actor).length := by
  refine (h.keysWhere fun e e' he => ?_).length_eq
  simp only [he.actors actor]

theorem keeper_eq (h : OrdMap.Rel (SameEntry rt strings) entries entries') (actor : String) :
    keeper entries actor = keeper entries' actor := by
  refine onlyOne_perm (h.keysWhere fun e e' he => ?_)
  simp only [he.actors actor]
  cases hd : e.declared with
  | false =>
    rw [← he.declared, hd]
    rfl
  | true => rw [← he.declared, hd, he.declaredName hd]

/-- **Settling keeps groups alike.** -/
theorem settle_related (h : OrdMap.Rel (SameEntry rt strings) entries entries') :
    OrdMap.Rel (SameEntry rt strings) (settle entries) (settle entries') := by
  refine h.mapBindings fun k e e' _ _ he => ?_
  refine ⟨fun actor => ?_, he.bot, he.declared, he.keyless, he.declaredName, he.name⟩
  simp only [List.mem_filter, he.actors actor, holders_length_eq h actor, keeper_eq h actor]

/-- Every string a group holds is one of the strings. -/
def Shows (strings : List String) (entries : OrdMap String DirectoryEntry) : Prop :=
  ∀ k e, entries.get? k = some e → ∀ actor ∈ e.actors, actor ∈ strings

theorem foldKeyless_shows (h : Shows strings entries) : Shows strings (foldKeyless entries) := by
  intro k e he actor hactor
  rw [foldKeyless, OrdMap.get?_mapBindings, OrdMap.get?_filter] at he
  obtain ⟨entry, hentry, rfl⟩ := Option.map_eq_some_iff.mp he
  have hentry := (Option.filter_eq_some_iff.mp hentry).1
  rcases ((foldl_absorb_fields _ entry).1 actor).mp hactor with hactor | ⟨x, hx, hactor⟩
  · exact h k entry hentry actor hactor
  · obtain ⟨⟨k', hk'⟩, -⟩ := mem_foldedInto.mp hx
    exact h k' x hk' actor hactor

theorem settle_shows (h : Shows strings entries) : Shows strings (settle entries) := by
  intro k e he actor hactor
  rw [settle, OrdMap.get?_mapBindings] at he
  obtain ⟨entry, hentry, rfl⟩ := Option.map_eq_some_iff.mp he
  exact h k entry hentry actor (List.mem_filter.mp hactor).1

/-! ## The directory -/

theorem publishEntry_name_eq (h : SameEntry rt strings entry entry')
    (hshown : ∀ actor ∈ entry.actors, actor ∈ strings) (hsep : Separates rt strings) :
    (publishEntry rt entry).name = (publishEntry rt entry').name := by
  have htrans := hsep.trans
  have hhead : (sortBy (compareName rt) entry.actors).head? =
      (sortBy (compareName rt) entry'.actors).head? :=
    head?_sortBy_eq h.actors fun a ha b hb => hsep.separates a (hshown a ha) b (hshown b hb)
  unfold publishEntry
  simp only [List.headD_eq_head?_getD, hhead, h.name hsep, h.actors]

end Stages

variable (rt) in
/-- The same identities: the same sets of strings, the same verdicts, and
the same names as far as the order of names tells the strings apart. -/
def SameDirectory (strings : List String) (directory directory' : List ActorIdentity) : Prop :=
  ∀ d ∈ directory, ∃ d' ∈ directory', (∀ actor, actor ∈ d.actors ↔ actor ∈ d'.actors) ∧
    d.bot = d'.bot ∧ (Separates rt strings → d.name = d'.name)

theorem sameDirectory_publish {entries entries' : OrdMap String DirectoryEntry}
    (h : OrdMap.Rel (SameEntry rt strings) entries entries') (hshown : Shows strings entries) :
    SameDirectory rt strings (publishDirectory rt entries) (publishDirectory rt entries') := by
  intro d hd
  obtain ⟨k, e, he, hne, rfl⟩ := (mem_publish rt).mp hd
  obtain ⟨e', he', hsame⟩ := h.get he
  have hne' : e'.actors ≠ [] := by
    obtain ⟨actor, hactor⟩ := List.exists_mem_of_ne_nil _ hne
    exact List.ne_nil_of_mem ((hsame.actors actor).mp hactor)
  refine ⟨_, (mem_publish rt).mpr ⟨k, e', he', hne', rfl⟩, fun actor => ?_, hsame.bot,
    publishEntry_name_eq hsame (hshown k e he)⟩
  rw [mem_publishEntry_actors, mem_publishEntry_actors, hsame.actors]

/-- **The directory in any order**, the claims being equal. -/
theorem sameDirectory_buildActorDirectory {activities activities' : List ActorActivity}
    (hperm : activities.Perm activities') (actorKeys : OrdMap Ref (Option (StoredActorKey rt)))
    {identities : List IdentityConfig} (hnames : ∀ id ∈ identities, id.name ≠ "")
    (excludes : List (String → Bool))
    (hclaims : ∀ key,
      (DirectoryScan.ofActivities activities actorKeys).claimOf rt
        (buildIdentityMatchers rt identities) key =
      (DirectoryScan.ofActivities activities' actorKeys).claimOf rt
        (buildIdentityMatchers rt identities) key) :
    SameDirectory rt (actorStrings activities ++ identities.map (·.name))
      (buildActorDirectory activities actorKeys (buildIdentityMatchers rt identities) excludes)
      (buildActorDirectory activities' actorKeys (buildIdentityMatchers rt identities) excludes) := by
  have hkeys := buildIdentityMatchers_keys rt identities
  have hmergeable : Mergeable (actorStrings activities ++ identities.map (·.name))
      (buildIdentityMatchers rt identities) (DirectoryScan.ofActivities activities actorKeys) := by
    refine ⟨hkeys.1, hkeys.2, fun m hm => ?_, fun k acc hacc => ?_⟩
    · obtain ⟨id, hid, hname⟩ := mem_buildIdentityMatchers rt hm
      rw [hname]
      exact ⟨hnames id hid, List.mem_append_right _ (List.mem_map_of_mem hid)⟩
    · have hseen := ofActivities_seen hacc
      exact ⟨hseen.key, hseen.named, fun n hn => List.mem_append_left _ (hseen.names n hn)⟩
  have hscan := sameScan_ofActivities hperm actorKeys
  have hmerged := sameMerged_mergeActors excludes hmergeable hscan hclaims
  have hentries := hmerged.mapBindings
    (f := directoryEntry rt (DirectoryScan.ofActivities activities actorKeys))
    (g := directoryEntry rt (DirectoryScan.ofActivities activities' actorKeys))
    fun k m m' hm _ hsame => sameEntry_directoryEntry hscan hsame (mergeActors_grouped hmergeable hm) k
  refine sameDirectory_publish (settle_related (foldKeyless_related hentries))
    (settle_shows (foldKeyless_shows ?_))
  intro k e he
  rw [directoryEntries, OrdMap.get?_mapBindings] at he
  obtain ⟨m, hm, rfl⟩ := Option.map_eq_some_iff.mp he
  exact directoryEntry_actors (mergeActors_grouped hmergeable hm) k

theorem Separates.mono {strings' : List String} (h : Separates rt strings)
    (hsub : ∀ s ∈ strings', s ∈ strings) : Separates rt strings' :=
  ⟨h.trans, fun a ha b hb => h.separates a (hsub a ha) b (hsub b hb)⟩

/-- **The actor directory is a partial function that ignores the order of
the activities**, as far as the claims of identities scoped to sources do.
A raw string is at most one identity's, and an identity is named by one of
its own. An order that leaves every key to the identity that claimed it
leaves the same identities, and every order does where no actor is claimed
by two identities on two of its sources. -/
theorem buildActorDirectory_order (activities : List ActorActivity)
    (actorKeys : OrdMap Ref (Option (StoredActorKey rt))) (identities : List IdentityConfig)
    (excludes : List (String → Bool)) :
    let matchers := buildIdentityMatchers rt identities
    let directory activities := buildActorDirectory activities actorKeys matchers excludes
    let scan activities := DirectoryScan.ofActivities activities actorKeys
    let strings := actorStrings activities ++ identities.map (·.name)
    (directory activities).Pairwise (fun d d' => d.actors.Disjoint d'.actors) ∧
    (∀ d ∈ directory activities, d.name ∈ d.actors) ∧
    (∀ activities', activities.Perm activities' → (∀ id ∈ identities, id.name ≠ "") →
      (∀ key, (scan activities).claimOf rt matchers key = (scan activities').claimOf rt matchers key) →
      SameDirectory rt strings (directory activities) (directory activities') ∧
      SameDirectory rt strings (directory activities') (directory activities)) ∧
    ∀ activities', activities.Perm activities' → AgreedClaims rt (scan activities) matchers →
      ∀ key, (scan activities).claimOf rt matchers key = (scan activities').claimOf rt matchers key := by
  intro matchers directory scan strings
  refine ⟨buildActorDirectory_disjoint _ _ _ _, fun d => buildActorDirectory_name_mem,
    fun activities' hperm hnames hclaims => ?_, fun activities' hperm hagreed =>
      (sameScan_ofActivities hperm actorKeys).claimOf_eq hagreed⟩
  have hback := sameDirectory_buildActorDirectory hperm.symm actorKeys hnames excludes
    fun key => (hclaims key).symm
  refine ⟨sameDirectory_buildActorDirectory hperm actorKeys hnames excludes hclaims, ?_⟩
  intro d hd
  obtain ⟨d', hd', hactors, hbot, hname⟩ := hback d hd
  refine ⟨d', hd', hactors, hbot, fun hsep => hname (hsep.mono fun s hs => ?_)⟩
  rcases List.mem_append.mp hs with hs | hs
  · obtain ⟨a, ha, hclean⟩ := List.mem_filterMap.mp hs
    exact List.mem_append_left _ (List.mem_filterMap.mpr ⟨a, hperm.mem_iff.mpr ha, hclean⟩)
  · exact List.mem_append_right _ hs

/-! ### Two sources, two claims -/

/-- ASCII names of one case pattern, and the two addresses they use. -/
def plainText : TextRuntime :=
  ⟨fun s => String.ofList (s.toList.map Char.toLower), compare,
    fun s => if s = "bob@example.com" then "5ff860bf1190596c" else "eb2b6c0d061bbd5c"⟩

/-- One actor's two activities, on two sources. -/
def twoSources : List ActorActivity :=
  [⟨⟨"a", by decide⟩, "1", some "Dev"⟩, ⟨⟨"b", by decide⟩, "2", some "Dev"⟩]

/-- Both carry the key of one address. -/
def oneAddress : OrdMap Ref (Option (StoredActorKey plainText)) :=
  ⟨[("a|1", some ⟨"email:eb2b6c0d061bbd5c", ⟨"a", none, some "dev@example.com", none⟩, by decide⟩),
    ("b|2", some ⟨"email:eb2b6c0d061bbd5c", ⟨"b", none, some "dev@example.com", none⟩, by decide⟩)], by decide⟩

/-- An identity for each source, with that address. -/
def scopedIdentities : List IdentityConfig :=
  [⟨"Dev", [], ["dev@example.com"], [], ["a"]⟩, ⟨"Eve", [], ["dev@example.com"], [], ["b"]⟩]

/-- The same two, and one more actor that goes by two names on the two
sources. -/
def twoActors : List ActorActivity :=
  twoSources ++ [⟨⟨"a", by decide⟩, "3", some "Bobby"⟩, ⟨⟨"b", by decide⟩, "4", some "Bob"⟩]

/-- Two rows of the second address. -/
def secondAddress : List (Ref × Option (StoredActorKey plainText)) :=
  [("a|3", some ⟨"email:5ff860bf1190596c", ⟨"a", none, some "bob@example.com", none⟩, by decide⟩),
    ("b|4", some ⟨"email:5ff860bf1190596c", ⟨"b", none, some "bob@example.com", none⟩, by decide⟩)]

/-- The rows of both addresses. -/
def twoAddresses : OrdMap Ref (Option (StoredActorKey plainText)) :=
  ⟨oneAddress.entries ++ secondAddress, by decide⟩

/-- One identity, of the first actor. -/
def eve : List IdentityConfig := [⟨"Eve", [], ["dev@example.com"], [], []⟩]

/-- Code point order tells all strings apart. -/
theorem separates_plainText (strings : List String) : Separates plainText strings where
  trans := inferInstanceAs (Std.TransCmp (compare : String → String → Ordering))
  separates _ _ _ _ h :=
    Std.LawfulEqOrd.eq_of_compare (α := String) (Ordering.then_eq_eq.mp h).2

/-- **The same for two actors in two orders**: the identity is named as
declared, and the other actor by one of its names. -/
theorem buildActorDirectory_order_two :
    let directory activities := buildActorDirectory activities twoAddresses
      (buildIdentityMatchers plainText eve) []
    ∀ d ∈ directory twoActors, ∃ d' ∈ directory twoActors.reverse,
      (∀ actor, actor ∈ d.actors ↔ actor ∈ d'.actors) ∧ d.bot = d'.bot ∧ d.name = d'.name := by
  intro directory d hd
  have hagreed : AgreedClaims plainText (DirectoryScan.ofActivities twoActors twoAddresses)
      (buildIdentityMatchers plainText eve) := by
    intro acc _ s _ s' _ m m' hm hm'
    obtain ⟨only, hone⟩ : ∃ only, buildIdentityMatchers plainText eve = [only] := ⟨_, rfl⟩
    have honly : ∀ {m sourceId}, resolveIdentity plainText acc
        (buildIdentityMatchers plainText eve) sourceId = some m → m = only :=
      fun hm => List.mem_singleton.mp (hone ▸ List.mem_of_find?_eq_some hm)
    exact (honly hm).trans (honly hm').symm
  obtain ⟨-, -, hsame, hclaims⟩ := buildActorDirectory_order twoActors twoAddresses eve []
  have hperm : twoActors.Perm twoActors.reverse := (List.reverse_perm twoActors).symm
  obtain ⟨d', hd', hactors, hbot, hname⟩ :=
    (hsame _ hperm (by decide) (hclaims _ hperm hagreed)).1 d hd
  exact ⟨d', hd', hactors, hbot, hname (separates_plainText _)⟩

/-- The address goes to the identity of the source seen first. -/
theorem not_buildActorDirectory_order :
    ¬∀ (rt : TextRuntime) (activities activities' : List ActorActivity)
      (actorKeys : OrdMap Ref (Option (StoredActorKey rt))) (identities : List IdentityConfig)
      (excludes : List (String → Bool)), activities.Perm activities' →
      SameDirectory rt (actorStrings activities ++ identities.map (·.name))
        (buildActorDirectory activities actorKeys (buildIdentityMatchers rt identities) excludes)
        (buildActorDirectory activities' actorKeys (buildIdentityMatchers rt identities) excludes) := by
  intro h
  have hsame := h plainText twoSources.reverse twoSources oneAddress scopedIdentities []
    (List.reverse_perm twoSources)
  have hfirst : (buildActorDirectory twoSources oneAddress
      (buildIdentityMatchers plainText scopedIdentities) []) = [⟨"Dev", ["Dev"], false⟩] := by
    decide +kernel
  have hsecond : (buildActorDirectory twoSources.reverse oneAddress
      (buildIdentityMatchers plainText scopedIdentities) []).map (·.name) = ["Eve"] := by
    decide +kernel
  obtain ⟨d, hd, hname⟩ := List.mem_map.mp (hsecond ▸ List.mem_singleton_self "Eve")
  obtain ⟨d', hd', hactors, -⟩ := hsame d hd
  rw [hfirst, List.mem_singleton] at hd'
  subst hd'
  have heve := (hactors "Eve").mp (hname ▸ buildActorDirectory_name_mem hd)
  exact absurd heve (by decide)

end SymphonyBoard
