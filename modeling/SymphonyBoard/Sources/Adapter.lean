import SymphonyBoard.Sources.Types
/-!
# What both adapters' normalizers share

An activity record becomes one activity, and a record of an item the bundle
of its kind, read from the node its payload holds. What the records of a
source are of follows from that alone, for either provider.
-/

namespace SymphonyBoard

variable {P N : Type}

/-- The entity an item of the kind is stored as. -/
def ItemKind.entityKind : ItemKind → EntityKind
  | .issue => .issue
  | .changeRequest => .changeRequest

/-- How an adapter normalizes its records. The bundle of a node is of the
node's item. -/
structure Reader (P N : Type) where
  sourceId : SourceId
  node? : P → Option N
  nodeId : N → String
  toActivity : RawRecord P → Option CanonicalActivity
  bundle : ItemKind → String → N → NormalizedBundle
  item_bundle : ∀ kind id p, ∃ i, (bundle kind id p).item = some i ∧ i.endpoint = ⟨sourceId, nodeId p⟩

/-- The bundle of an activity record. -/
def activityBundle (a : CanonicalActivity) : NormalizedBundle :=
  { item := none, labels := [], edges := [], activities := [a], reviewThreads := [] }

namespace Reader

variable (A : Reader P N)

/-- An item of the source. -/
def endpointOf (id : String) : ItemEndpoint := ⟨A.sourceId, id⟩

/-- The kind and the node of a record of an item. -/
def item? (r : RawRecord P) : Option (ItemKind × N) :=
  match r.entityKind with
  | .issue => (A.node? r.payload).map (ItemKind.issue, ·)
  | .changeRequest => (A.node? r.payload).map (ItemKind.changeRequest, ·)
  | _ => none

/-- What a record becomes: one activity, or the bundle of an item. -/
def normalize (r : RawRecord P) : Option NormalizedBundle :=
  if r.entityKind = .activity then (A.toActivity r).map activityBundle
  else (A.item? r).map fun item => A.bundle item.1 r.externalId item.2

/-- A record of an item, with the node its payload holds. -/
structure OfItem (r : RawRecord P) (kind : ItemKind) (p : N) : Prop where
  entityKind : r.entityKind = kind.entityKind
  payload : A.node? r.payload = some p
  id : A.nodeId p = r.externalId

/-- An activity record, or one of an item. -/
def Knows (r : RawRecord P) : Prop :=
  r.entityKind = .activity ∨ ∃ kind p, A.OfItem r kind p

variable {A} {r : RawRecord P}

theorem OfItem.entityKind_ne_activity {kind : ItemKind} {p : N} (h : A.OfItem r kind p) :
    r.entityKind ≠ .activity := by
  rw [h.entityKind]
  cases kind <;> exact fun hkind => by cases hkind

theorem OfItem.item? {kind : ItemKind} {p : N} (h : A.OfItem r kind p) :
    A.item? r = some (kind, p) := by
  unfold Reader.item?
  rw [h.entityKind, h.payload]
  cases kind <;> rfl

theorem normalize_activity (h : r.entityKind = .activity) :
    A.normalize r = (A.toActivity r).map activityBundle := if_pos h

theorem normalize_item (h : r.entityKind ≠ .activity) :
    A.normalize r = (A.item? r).map fun item => A.bundle item.1 r.externalId item.2 := if_neg h

theorem OfItem.normalize {kind : ItemKind} {p : N} (h : A.OfItem r kind p) :
    A.normalize r = some (A.bundle kind r.externalId p) := by
  rw [normalize_item h.entityKind_ne_activity, h.item?]
  rfl

/-- A record of an item normalizes to that item. -/
theorem OfItem.normalizesTo_iff {kind : ItemKind} {p : N} (h : A.OfItem r kind p)
    (k : ItemEndpoint) : NormalizesTo A.normalize r k ↔ k = ⟨A.sourceId, r.externalId⟩ := by
  obtain ⟨i, hi, hend⟩ := A.item_bundle kind r.externalId p
  rw [h.id] at hend
  constructor
  · rintro ⟨b, i', hb, hi', rfl⟩
    obtain rfl := Option.some.inj (h.normalize.symm.trans hb)
    obtain rfl := Option.some.inj (hi.symm.trans hi')
    exact hend
  · rintro rfl
    exact ⟨_, i, h.normalize, hi, hend⟩

/-- An activity record is of no item. -/
theorem not_normalizesTo_activity (h : r.entityKind = .activity) (k : ItemEndpoint) :
    ¬ NormalizesTo A.normalize r k := by
  rintro ⟨b, i, hb, hi, -⟩
  rw [normalize_activity h] at hb
  obtain ⟨a, -, rfl⟩ := Option.map_eq_some_iff.mp hb
  cases hi

/-- A known record of an item's kind is of an item. -/
theorem Knows.ofItem (h : A.Knows r) (hkind : r.entityKind ≠ .activity) :
    ∃ kind p, A.OfItem r kind p :=
  h.resolve_left hkind

variable (A) in
/-- Every record the source yields is one the reader knows. -/
structure Reads (source : Source P) : Prop where
  fetched : ∀ opts result, source.fetch opts = .ok result → ∀ r ∈ result.records, A.Knows r
  refreshed : ∀ fetchRefresh, source.fetchRefresh = some fetchRefresh →
    ∀ candidates opts result, fetchRefresh candidates opts = .ok result →
      ∀ r ∈ result.records, A.Knows r

/-- What a fetch and a refresh yield together. -/
theorem Reads.knows {source : Source P} (h : A.Reads source) {opts : FetchOptions}
    (opts' : FetchOptions) {candidates : List RefreshCandidate} {primary refresh : FetchResult P}
    {fetchRefresh : List RefreshCandidate → FetchOptions → Except String (FetchResult P)}
    (hfetch : source.fetch opts = .ok primary) (hf : source.fetchRefresh = some fetchRefresh)
    (hrefresh : fetchRefresh candidates opts' = .ok refresh) :
    ∀ r ∈ primary.records ++ refresh.records, A.Knows r := by
  intro r hr
  rcases List.mem_append.mp hr with hr | hr
  · exact h.fetched _ _ hfetch r hr
  · exact h.refreshed _ hf _ _ _ hrefresh r hr

end Reader

end SymphonyBoard
