import SymphonyBoard.Sources.Adapter
import SymphonyBoard.SyncEngine.Incremental
/-!
# What merged records write

The refresh pass reads items again, and of two records of one identity the
merge keeps the later one whole. `includes_merged_iff` says when the rows
written from the merged records include those the first reads alone would
have written: what a record reports is an edge, an activity or a review
thread under its key (`Part`), which any record of the run may report, or
a label, which only the last record of its item gives.
-/

namespace SymphonyBoard

variable {P : Type}

/-! ## Reports -/

/-- What a record can report, by the key of its row. -/
inductive Part
  | edge (k : EdgeRowKey)
  | activity (k : ItemEndpoint)
  | reviewThread (k : ItemEndpoint)

section Reports

variable (normalize : RawRecord P → Option NormalizedBundle)

/-- The record's bundle carries the part; an edge counts only beside the bundle's item. -/
def Reports (r : RawRecord P) : Part → Prop
  | .edge k => ∃ b i, normalize r = some b ∧ b.item = some i ∧
      ∃ e ∈ b.edges, (e.type, e.fromEnd, e.toEnd) = k
  | .activity k => ∃ b, normalize r = some b ∧ ∃ a ∈ b.activities, a.endpoint = k
  | .reviewThread k => ∃ b, normalize r = some b ∧ ∃ t ∈ b.reviewThreads, t.endpoint = k

/-- The record gives its item a label of this name. -/
def Labelled (r : RawRecord P) (name : String) : Prop :=
  ∃ b i, normalize r = some b ∧ b.item = some i ∧ ∃ l ∈ b.labels, l.name = name

/-- Records of one item have one identity. -/
def OneRecordEach (records : List (RawRecord P)) : Prop :=
  ∀ r ∈ records, ∀ r' ∈ records, ∀ k, NormalizesTo normalize r k →
    (NormalizesTo normalize r' k ↔ r'.key = r.key)

end Reports

/-- The provider's ids tell the kinds of items apart. -/
def IdsByKind (records : List (RawRecord P)) : Prop :=
  ∀ r ∈ records, ∀ r' ∈ records, r.entityKind ≠ .activity → r'.entityKind ≠ .activity →
    r'.externalId = r.externalId → r'.entityKind = r.entityKind

/-- Ids that tell kinds apart tell identities apart. -/
theorem Reader.oneRecordEach {N : Type} {A : Reader P N} {records : List (RawRecord P)}
    (hknown : ∀ r ∈ records, A.Knows r) (hids : IdsByKind records) :
    OneRecordEach A.normalize records := by
  intro r hr r' hr' k hto
  have hkind : r.entityKind ≠ .activity := fun h => Reader.not_normalizesTo_activity h k hto
  obtain ⟨_, _, hitem⟩ := (hknown r hr).ofItem hkind
  obtain rfl := (hitem.normalizesTo_iff k).mp hto
  constructor
  · intro hto'
    have hkind' : r'.entityKind ≠ .activity :=
      fun h => Reader.not_normalizesTo_activity h _ hto'
    obtain ⟨_, _, hitem'⟩ := (hknown r' hr').ofItem hkind'
    have hid := congrArg ItemEndpoint.externalId ((hitem'.normalizesTo_iff _).mp hto')
    exact Prod.ext (hids r hr r' hr' hkind hkind' hid.symm) hid.symm
  · intro hkey
    obtain ⟨hk, hid⟩ := Prod.mk.inj hkey
    obtain ⟨_, _, hitem'⟩ := (hknown r' hr').ofItem (by rw [hk]; exact hkind)
    rw [hitem'.normalizesTo_iff, hid]

/-- The last record of its identity. -/
def Latest (records : List (RawRecord P)) (r : RawRecord P) : Prop :=
  (records.filter fun r' => r'.key = r.key).getLast? = some r

theorem Latest.mem {records : List (RawRecord P)} {r : RawRecord P} (h : Latest records r) :
    r ∈ records :=
  (List.mem_filter.mp (List.mem_of_getLast? h)).1

theorem Latest.unique {records : List (RawRecord P)} {r r' : RawRecord P}
    (h : Latest records r) (h' : Latest records r') (hkey : r'.key = r.key) : r' = r := by
  unfold Latest at h'
  rw [hkey] at h'
  exact Option.some.inj (h'.symm.trans h)

theorem latest_append_singleton {records : List (RawRecord P)} {r r' : RawRecord P} :
    Latest (records ++ [r]) r' ↔ r' = r ∨ r.key ≠ r'.key ∧ Latest records r' := by
  unfold Latest
  rw [List.filter_append]
  by_cases hkey : r.key = r'.key
  · rw [List.filter_cons_of_pos (by simp [hkey]), List.filter_nil, List.getLast?_append,
      List.getLast?_singleton, Option.some_or]
    constructor
    · exact fun h => Or.inl (Option.some.inj h).symm
    · rintro (rfl | ⟨hne, -⟩)
      · rfl
      · exact absurd hkey hne
  · rw [List.filter_cons_of_neg (by simp [hkey]), List.filter_nil, List.append_nil]
    constructor
    · exact fun h => Or.inr ⟨hkey, h⟩
    · rintro (rfl | ⟨-, h⟩)
      · exact absurd rfl hkey
      · exact h

theorem mem_dedupeRecords_iff_latest {records : List (RawRecord P)} {r : RawRecord P} :
    r ∈ dedupeRecords records ↔ Latest records r :=
  mem_dedupeRecords_iff

/-- Every identity has a last record. -/
theorem exists_latest {records : List (RawRecord P)} {r : RawRecord P} (h : r ∈ records) :
    ∃ r', Latest records r' ∧ r'.key = r.key := by
  obtain ⟨r', hr', hkey⟩ := exists_mem_dedupeRecords h
  exact ⟨r', mem_dedupeRecords_iff_latest.mp hr', hkey⟩

/-- The merge keeps one record an identity. -/
theorem latest_dedupeRecords {records : List (RawRecord P)} {r : RawRecord P} :
    Latest (dedupeRecords records) r ↔ Latest records r := by
  constructor
  · exact fun h => mem_dedupeRecords_iff_latest.mp h.mem
  · intro h
    have hkey : ∀ b ∈ (OrdMap.index RawRecord.key records).entries, b.2.key = b.1 := by
      rintro ⟨k, r'⟩ hb
      rw [OrdMap.mem_entries_iff, OrdMap.get?_index] at hb
      simpa using (List.mem_filter.mp (List.mem_of_getLast? hb)).2
    unfold Latest dedupeRecords
    rw [OrdMap.filter_values _ _ hkey, OrdMap.get?_index, show _ = some r from h]
    rfl

/-! ## Rows -/

/-- The rows the records write by themselves. -/
def written (source : Source P) (normalize : RawRecord P → Option NormalizedBundle)
    (startedAt : String) (records : List (RawRecord P)) : Store P :=
  writeFetched (Store.empty .sqlite) source startedAt records (records.filterMap normalize)

/-- A store has a row for it. -/
def Store.Holds (s : Store P) : Part → Prop
  | .edge k => (s.edges.get? k).isSome = true
  | .activity k => (s.activities.get? k).isSome = true
  | .reviewThread k => (s.reviewThreads.get? k).isSome = true

/-- The item has a label of this name. -/
def Store.HasLabel (s : Store P) (k : ItemEndpoint) (name : String) : Prop :=
  ∃ ls, s.itemLabels.get? k = some ls ∧ ∃ l ∈ ls, l.name = name

/-- Every edge, activity, review thread and label of the one store is one
of the other. -/
structure Store.Includes (s s' : Store P) : Prop where
  parts : ∀ x, s'.Holds x → s.Holds x
  labels : ∀ k name, s'.HasLabel k name → s.HasLabel k name

section Written

variable (source : Source P) {normalize : RawRecord P → Option NormalizedBundle}
  (startedAt : String) (records : List (RawRecord P))

theorem isSome_foldl_some {α β : Type} (f : α → Option β → β) (l : List α) :
    (l.foldl (fun o x => some (f x o)) none).isSome = true ↔ l ≠ [] := by
  induction l using List.reverseRecOn with
  | nil => simp
  | append_singleton l x _ => simp

theorem filter_ne_nil_iff {α : Type} {p : α → Bool} {l : List α} :
    l.filter p ≠ [] ↔ ∃ x ∈ l, p x = true := by
  simp [List.filter_eq_nil_iff]

theorem isSome_refinedAt_iff {bundles : List NormalizedBundle} {k : EdgeRowKey} :
    (refinedAt bundles k).isSome = true ↔ ∃ b ∈ bundles, ∃ i, b.item = some i ∧
      ∃ e ∈ b.edges, (e.type, e.fromEnd, e.toEnd) = k := by
  obtain ⟨type, fromEnd, toEnd⟩ := k
  have hreports : (refinedAt bundles (type, fromEnd, toEnd)).isSome = true ↔
      reportsOf (discovered bundles) (type, refOfEndpoint fromEnd, refOfEndpoint toEnd) ≠ [] := by
    rw [refinedAt, Option.isSome_map]
    rcases reconcileMap_get? (discovered bundles)
      (type, refOfEndpoint fromEnd, refOfEndpoint toEnd) with ⟨hnone, hnil⟩ | ⟨e, he, hne, -⟩
    · simp [hnone, hnil]
    · simp [he, hne]
  rw [hreports, reportsOf, filter_ne_nil_iff]
  constructor
  · rintro ⟨d, hd, hkey⟩
    obtain ⟨b, hb, hd⟩ := List.mem_flatMap.mp hd
    cases hi : b.item with
    | none =>
      rw [hi] at hd
      cases hd
    | some i =>
      rw [hi] at hd
      obtain ⟨e, he, rfl⟩ := List.mem_map.mp hd
      refine ⟨b, hb, i, hi, e, he, ?_⟩
      simpa [keyOf, refOfEndpoint_injective.eq_iff] using hkey
  · rintro ⟨b, hb, i, hi, e, he, hkey⟩
    refine ⟨(e, reporterSide e i.endpoint), List.mem_flatMap.mpr ⟨b, hb, ?_⟩, ?_⟩
    · rw [hi]
      exact List.mem_map.mpr ⟨e, he, rfl⟩
    · obtain ⟨rfl, rfl, rfl⟩ := hkey
      simp [keyOf]

/-- **A row is written for what some record reports.** -/
theorem holds_written_iff (x : Part) :
    (written source normalize startedAt records).Holds x ↔ ∃ r ∈ records, Reports normalize r x := by
  rw [written, writeFetched_eq]
  cases x with
  | edge k =>
    simp only [Store.Holds, Store.empty, OrdMap.get?_foldl_upsert, OrdMap.get?_empty,
      isSome_foldl_some]
    rw [filter_refinedEdges, ne_eq, Option.toList_eq_nil_iff, ← ne_eq, Option.ne_none_iff_isSome,
      isSome_refinedAt_iff]
    simp only [List.mem_filterMap, Reports]
    constructor
    · rintro ⟨b, ⟨r, hr, hb⟩, i, hi, he⟩
      exact ⟨r, hr, b, i, hb, hi, he⟩
    · rintro ⟨r, hr, b, i, hb, hi, he⟩
      exact ⟨b, ⟨r, hr, hb⟩, i, hi, he⟩
  | activity k =>
    simp only [Store.Holds, Store.empty, OrdMap.get?_foldl_upsert, OrdMap.get?_empty,
      isSome_foldl_some, filter_ne_nil_iff, List.mem_flatMap, List.mem_filterMap,
      decide_eq_true_eq, Reports]
    constructor
    · rintro ⟨a, ⟨b, ⟨r, hr, hb⟩, ha⟩, hk⟩
      exact ⟨r, hr, b, hb, a, ha, hk⟩
    · rintro ⟨r, hr, b, hb, a, ha, hk⟩
      exact ⟨a, ⟨b, ⟨r, hr, hb⟩, ha⟩, hk⟩
  | reviewThread k =>
    simp only [Store.Holds, Store.empty, OrdMap.get?_foldl_set, OrdMap.get?_empty, Option.or_none,
      Option.isSome_map, List.getLast?_isSome, filter_ne_nil_iff, List.mem_flatMap,
      List.mem_filterMap, decide_eq_true_eq, Reports]
    constructor
    · rintro ⟨t, ⟨b, ⟨r, hr, hb⟩, ht⟩, hk⟩
      exact ⟨r, hr, b, hb, t, ht, hk⟩
    · rintro ⟨r, hr, b, hb, t, ht, hk⟩
      exact ⟨t, ⟨b, ⟨r, hr, hb⟩, ht⟩, hk⟩

theorem foldl_getD {α : Type} (l : List α) (o : Option α) :
    l.foldl (fun o x => some (o.getD x)) o = o.or l.head? := by
  induction l generalizing o with
  | nil => simp
  | cons x l ih =>
    rw [List.foldl_cons, ih]
    cases o <;> simp

/-- The labels of one name each have the names there were. -/
theorem exists_mem_distinctByName {ls : List CanonicalLabel} {name : String} :
    (∃ l ∈ Store.distinctByName ls, l.name = name) ↔ ∃ l ∈ ls, l.name = name := by
  have hmem : ∀ l, l ∈ Store.distinctByName ls ↔
      ∃ k, (ls.filter fun l => l.name = k).head? = some l := by
    intro l
    rw [Store.distinctByName, OrdMap.mem_values_iff]
    simp only [OrdMap.get?_foldl_upsert, OrdMap.get?_empty, foldl_getD, Option.none_or]
  constructor
  · rintro ⟨l, hl, hname⟩
    obtain ⟨k, hk⟩ := (hmem l).mp hl
    exact ⟨l, (List.mem_filter.mp (List.mem_of_head? hk)).1, hname⟩
  · rintro ⟨l, hl, rfl⟩
    have hne : (ls.filter fun l' => l'.name = l.name) ≠ [] :=
      filter_ne_nil_iff.mpr ⟨l, hl, by simp⟩
    obtain ⟨l', hl'⟩ := Option.isSome_iff_exists.mp (List.isSome_head?.mpr hne)
    exact ⟨l', (hmem l').mpr ⟨_, hl'⟩,
      by simpa using (List.mem_filter.mp (List.mem_of_head? hl')).2⟩

/-- The last item of a key, with its labels, is the last record's of it. -/
theorem getLast?_labelledItems {records : List (RawRecord P)}
    (h : OneRecordEach normalize records) (k : ItemEndpoint)
    (il : CanonicalItem × List CanonicalLabel) :
    ((labelledItems (records.filterMap normalize)).filter fun il => il.1.endpoint = k).getLast? =
        some il ↔
      ∃ r b i, Latest records r ∧ normalize r = some b ∧ b.item = some i ∧ i.endpoint = k ∧
        il = (i, b.labels) := by
  induction records using List.reverseRecOn with
  | nil => simp [labelledItems, Latest]
  | append_singleton records r ih =>
    have ih := ih fun r hr r' hr' =>
      h r (List.mem_append_left _ hr) r' (List.mem_append_left _ hr')
    have hr : r ∈ records ++ [r] := List.mem_append_right _ List.mem_cons_self
    have happend : labelledItems ((records ++ [r]).filterMap normalize) =
        labelledItems (records.filterMap normalize) ++
          ((normalize r).bind fun b => b.item.map fun i => (i, b.labels)).toList := by
      rw [List.filterMap_append, labelledItems, List.filterMap_append]
      cases hb : normalize r with
      | none => simp [hb, labelledItems]
      | some b => cases hi : b.item <;> simp [hb, hi, labelledItems]
    rw [happend, List.filter_append, List.getLast?_append]
    -- the last record is of this item, or it leaves the item to those before
    by_cases hto : NormalizesTo normalize r k
    · obtain ⟨b, i, hb, hi, hk⟩ := hto
      have hself : (((normalize r).bind fun b => b.item.map fun i => (i, b.labels)).toList.filter
          fun il => decide (il.1.endpoint = k)).getLast? = some (i, b.labels) := by
        simp [hb, hi, hk]
      rw [hself, Option.some_or]
      constructor
      · intro heq
        exact ⟨r, b, i, latest_append_singleton.mpr (Or.inl rfl), hb, hi, hk,
          (Option.some.inj heq).symm⟩
      · rintro ⟨r', b', i', hr', hb', hi', hk', rfl⟩
        rcases latest_append_singleton.mp hr' with rfl | ⟨hne, hlast⟩
        · obtain rfl := Option.some.inj (hb.symm.trans hb')
          obtain rfl := Option.some.inj (hi.symm.trans hi')
          rfl
        · exact absurd ((h r' (List.mem_append_left _ hlast.mem) r hr k ⟨b', i', hb', hi', hk'⟩).mp
            ⟨b, i, hb, hi, hk⟩) hne
    · have hnone : (((normalize r).bind fun b => b.item.map fun i => (i, b.labels)).toList.filter
          fun il => decide (il.1.endpoint = k)).getLast? = none := by
        rw [List.getLast?_eq_none_iff, List.filter_eq_nil_iff]
        intro il hil hk
        obtain ⟨b, hb, hil⟩ := Option.bind_eq_some_iff.mp (Option.mem_toList.mp hil)
        obtain ⟨i, hi, rfl⟩ := Option.map_eq_some_iff.mp hil
        exact hto ⟨b, i, hb, hi, of_decide_eq_true hk⟩
      rw [hnone, Option.none_or, ih]
      constructor
      · rintro ⟨r', b, i, hlast, hb, hi, hk, heq⟩
        refine ⟨r', b, i, latest_append_singleton.mpr (Or.inr ⟨fun hkey => hto ?_, hlast⟩), hb, hi,
          hk, heq⟩
        exact (h r' (List.mem_append_left _ hlast.mem) r hr k ⟨b, i, hb, hi, hk⟩).mpr hkey
      · rintro ⟨r', b, i, hr', hb, hi, hk, heq⟩
        rcases latest_append_singleton.mp hr' with rfl | ⟨-, hlast⟩
        · exact absurd ⟨b, i, hb, hi, hk⟩ hto
        · exact ⟨r', b, i, hlast, hb, hi, hk, heq⟩

/-- **An item has the labels its last record gave it.** -/
theorem hasLabel_written_iff (h : OneRecordEach normalize records) (k : ItemEndpoint)
    (name : String) : (written source normalize startedAt records).HasLabel k name ↔
      ∃ r, Latest records r ∧ NormalizesTo normalize r k ∧ Labelled normalize r name := by
  have hlabels : (written source normalize startedAt records).itemLabels.get? k =
      (((labelledItems (records.filterMap normalize)).filter
        fun il => il.1.endpoint = k).getLast?).map fun il => Store.distinctByName il.2 := by
    rw [written, writeFetched_eq]
    simp only [Store.empty, OrdMap.get?_foldl_set, OrdMap.get?_empty, Option.or_none]
  simp only [Store.HasLabel, hlabels, Option.map_eq_some_iff, getLast?_labelledItems h]
  constructor
  · rintro ⟨_, ⟨_, ⟨r, b, i, hr, hb, hi, hk, rfl⟩, rfl⟩, hl⟩
    exact ⟨r, hr, ⟨b, i, hb, hi, hk⟩, b, i, hb, hi, exists_mem_distinctByName.mp hl⟩
  · rintro ⟨r, hr, ⟨b, i, hb, hi, hk⟩, b', i', hb', hi', hl⟩
    obtain rfl := Option.some.inj (hb.symm.trans hb')
    exact ⟨_, ⟨_, ⟨r, b, i, hr, hb, hi, hk, rfl⟩, rfl⟩, exists_mem_distinctByName.mpr hl⟩

end Written

/-! ## The merge -/

/-- **When the merge loses nothing**: what a record of the first reads
reports, some last record reports, and the labels the first reads gave an
item, its last record gives. -/
theorem includes_merged_iff (source : Source P)
    {normalize : RawRecord P → Option NormalizedBundle} (startedAt : String)
    {primary refresh : List (RawRecord P)} (h : OneRecordEach normalize (primary ++ refresh)) :
    (written source normalize startedAt (dedupeRecords (primary ++ refresh))).Includes
        (written source normalize startedAt primary) ↔
      (∀ r ∈ primary, ∀ x, Reports normalize r x →
        ∃ other, Latest (primary ++ refresh) other ∧ Reports normalize other x) ∧
      ∀ r, Latest primary r → ∀ r', Latest (primary ++ refresh) r' → r'.key = r.key →
        ∀ name, Labelled normalize r name → Labelled normalize r' name := by
  have hmem : ∀ r ∈ dedupeRecords (primary ++ refresh), r ∈ primary ++ refresh :=
    fun r hr => mem_of_mem_dedupeRecords hr
  have hprimary : OneRecordEach normalize primary := fun r hr r' hr' =>
    h r (List.mem_append_left _ hr) r' (List.mem_append_left _ hr')
  have hmerged : OneRecordEach normalize (dedupeRecords (primary ++ refresh)) :=
    fun r hr r' hr' => h r (hmem r hr) r' (hmem r' hr')
  constructor
  · -- what the merge writes is reported by a last record
    intro hincl
    refine ⟨fun r hr x hx => ?_, fun r hlast r' hr' hkey name hname => ?_⟩
    · obtain ⟨other, hother, hox⟩ := (holds_written_iff source startedAt _ x).mp
        (hincl.parts x ((holds_written_iff source startedAt _ x).mpr ⟨r, hr, hx⟩))
      exact ⟨other, mem_dedupeRecords_iff_latest.mp hother, hox⟩
    · obtain ⟨b, i, hb, hi, hl⟩ := hname
      have hto : NormalizesTo normalize r i.endpoint := ⟨b, i, hb, hi, rfl⟩
      obtain ⟨other, hother, hoto, hol⟩ :=
        (hasLabel_written_iff source startedAt _ hmerged i.endpoint name).mp
          (hincl.labels _ _ ((hasLabel_written_iff source startedAt _ hprimary i.endpoint name).mpr
            ⟨r, hlast, hto, b, i, hb, hi, hl⟩))
      have hother := latest_dedupeRecords.mp hother
      have hok := (h r (List.mem_append_left _ hlast.mem) other hother.mem _ hto).mp hoto
      obtain rfl := hr'.unique hother (hok.trans hkey.symm)
      exact hol
  · rintro ⟨hparts, hlabels⟩
    refine ⟨fun x hx => ?_, fun k name hname => ?_⟩
    · obtain ⟨r, hr, hrx⟩ := (holds_written_iff source startedAt _ x).mp hx
      obtain ⟨other, hother, hox⟩ := hparts r hr x hrx
      exact (holds_written_iff source startedAt _ x).mpr
        ⟨other, mem_dedupeRecords_iff_latest.mpr hother, hox⟩
    · obtain ⟨r, hr, hto, hl⟩ := (hasLabel_written_iff source startedAt _ hprimary k name).mp hname
      obtain ⟨r', hr', hkey⟩ := exists_latest (List.mem_append_left refresh hr.mem)
      exact (hasLabel_written_iff source startedAt _ hmerged k name).mpr
        ⟨r', latest_dedupeRecords.mpr hr',
          (h r (List.mem_append_left _ hr.mem) r' hr'.mem k hto).mpr hkey,
          hlabels r hr r' hr' hkey name hl⟩

end SymphonyBoard
